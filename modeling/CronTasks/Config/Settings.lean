import CronTasks.Calendar.Zone
import CronTasks.Config.Schema
import CronTasks.Text.Numeral

namespace CronTasks

open Calendar Text

inductive ConfigError
  | invalidTimezone (path name : String)
  | invalidProperty (key value : String) (fault : NumeralError)
  | zeroThreads
  deriving DecidableEq

def ConfigError.message : ConfigError → String
  | .invalidTimezone path name => "unknown timezone <" ++ name ++ "> at " ++ path
  | .invalidProperty key value fault =>
    "invalid value <" ++ value ++ "> for property " ++ key ++ ": " ++ fault.message
  | .zeroThreads => "thread count must be at least 1"

/-- The zone under a name; a blank name stands for none. -/
def parseTimezone (path : String) (name : Option String) : Except ConfigError (Option Zone) :=
  match name.map trimmed with
  | none | some "" => .ok none
  | some name =>
    match Zone.find? name with
    | some zone => .ok (some zone)
    | none => .error (.invalidTimezone path name)

def parseThreadCount (s : String) : Except NumeralError Nat :=
  Numeral.read Numeral.max64 (trim s.toList)

namespace TriggerConfig

def threads (c : TriggerConfig) : Except ConfigError Nat :=
  match c.properties.get? Properties.threadCount with
  | some s => (parseThreadCount s).mapError (.invalidProperty Properties.threadCount s)
  | none => .ok c.threadCount

end TriggerConfig

structure TriggerSettings where
  schedulerName : String
  threadCount : Nat
  zone : Option Zone
  deriving DecidableEq

structure RunnerSettings where
  zone : Option Zone
  deriving DecidableEq

namespace TriggerSettings

/-- Properties come before the fields that they speak of. -/
def ofConfig (c : TriggerConfig) : Except ConfigError TriggerSettings := do
  let threadCount ← c.threads
  if threadCount = 0 then throw .zeroThreads
  let zone ← parseTimezone "trigger.timezone" c.timezone
  return {
    schedulerName := (c.properties.get? Properties.instanceName).getD c.schedulerName
    threadCount
    zone }

end TriggerSettings

def RunnerSettings.ofConfig (c : RunnerConfig) : Except ConfigError RunnerSettings := do
  return { zone := ← parseTimezone "runner.timezone" c.timezone }

end CronTasks
