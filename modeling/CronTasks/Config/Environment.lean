import CronTasks.Config.Schema
import CronTasks.Text.Numeral

namespace CronTasks

open Text

abbrev Environment := String → Option String

namespace Environment

def client? (env : Environment) : Option ClientType := do
  (ClientType.parse (← env "CRONREPO_CLIENT")).toOption

def threadCount? (env : Environment) : Option Nat := do
  Numeral.read? Numeral.max64 (trim (← env "CRONREPO_THREAD_COUNT").toList)

def timezone? (env : Environment) : Option String := env "CRONREPO_TIMEZONE"

def logLevel? (env : Environment) : Option String := env "CRONREPO_LOG_LEVEL"

/-- A configuration with what the environment says instead; the zone is for both engines. -/
def override (env : Environment) (c : Config) : Config :=
  { client := env.client?.getD c.client
    trigger := { c.trigger with
      threadCount := env.threadCount?.getD c.trigger.threadCount
      timezone := env.timezone? <|> c.trigger.timezone }
    runner := { timezone := env.timezone? <|> c.runner.timezone }
    logging := { c.logging with level := env.logLevel?.getD c.logging.level } }

end Environment

end CronTasks
