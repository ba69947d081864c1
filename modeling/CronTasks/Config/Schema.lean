import CronTasks.Config.Properties
import CronTasks.Text.Blank

namespace CronTasks

open Text

inductive ClientType
  | trigger
  | runner
  deriving DecidableEq

structure UnknownClient where
  name : String
  deriving DecidableEq

def UnknownClient.message (e : UnknownClient) : String := "unknown client type: " ++ e.name

namespace ClientType

def name : ClientType → String
  | trigger => "trigger"
  | runner => "runner"

def ofName? (s : String) : Option ClientType :=
  if s = "trigger" then some trigger else if s = "runner" then some runner else none

/-- A name in letters of any case, with blanks around it. -/
def parse (s : String) : Except UnknownClient ClientType :=
  match ofName? (lowered (trimmed s)) with
  | some c => .ok c
  | none => .error ⟨lowered (trimmed s)⟩

end ClientType

structure TriggerConfig where
  schedulerName : String := "CronScheduler"
  threadCount : Nat := 10
  /-- Expressions are in universal time where there is no zone. -/
  timezone : Option String := none
  properties : Properties := .empty
  deriving DecidableEq

structure RunnerConfig where
  timezone : Option String := none
  deriving DecidableEq

structure LoggingConfig where
  level : String := "info"
  json : Bool := false
  deriving DecidableEq

structure Config where
  client : ClientType := .trigger
  trigger : TriggerConfig := {}
  runner : RunnerConfig := {}
  logging : LoggingConfig := {}
  deriving DecidableEq

end CronTasks
