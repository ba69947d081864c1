import CronTasks.Text.Blank
import CronTasks.Text.Numeral
import CronTasks.Text.Quoted
import CronTasks.Text.EditDistance
import CronTasks.Text.Placeholder
import CronTasks.Calendar.Date
import CronTasks.Calendar.Instant
import CronTasks.Calendar.Zone
import CronTasks.Cron.Pattern
import CronTasks.Body
import CronTasks.Methods
import CronTasks.Lifecycle
import CronTasks.Listeners
import CronTasks.TaskInfo
import CronTasks.Trigger.Repository
import CronTasks.Runner.Repository
import CronTasks.Document.Toml
import CronTasks.Document.Yaml
import CronTasks.Builder
import CronTasks.Config.Decode
import CronTasks.Config.Diagnosis
import CronTasks.Proofs.Trigger.Repetition
import CronTasks.Proofs.Window
import CronTasks.Proofs.Protocol
import CronTasks.Proofs.Trigger.Cache
import CronTasks.Proofs.Registration
import CronTasks.Proofs.Config.Findings
import CronTasks.Proofs.Later
import CronTasks.Proofs.Config.Validation
import CronTasks.Proofs.Lifecycle
import CronTasks.Proofs.Cron.FiveFields
import CronTasks.Proofs.Trigger.Limits
import CronTasks.Proofs.Cron.Renumber
import CronTasks.Proofs.Trigger.Resume
import CronTasks.Proofs.Successor
import CronTasks.Proofs.Trigger.CatchUp
import CronTasks.Proofs.Config.Refusal
import CronTasks.Proofs.Config.Fields
import CronTasks.Proofs.Precedence
import CronTasks.Proofs.Text.EditDistance
import CronTasks.Proofs.Cron.Alternatives
import CronTasks.Proofs.Cron.FieldCount
import CronTasks.Proofs.Trigger.Spelling
import CronTasks.Proofs.Config.Customizing
