import CronTasks.Calendar.Instant
import CronTasks.Key

namespace CronTasks

open Calendar

structure Firing where
  taskId : String
  firedAt : Instant
  deriving DecidableEq

inductive Ending
  | succeeded
  | failed (message : String)
  deriving DecidableEq

namespace Ending

def isSuccess : Ending → Bool
  | succeeded => true
  | failed _ => false

def shown : Ending → String
  | succeeded => "Succeeded"
  | failed message => Text.shownTuple "Failed" (Text.quoted message)

end Ending

inductive Hook
  | before
  | success
  | failure (message : String)
  | after (ending : Ending)
  deriving DecidableEq

def Ending.hook : Ending → Hook
  | succeeded => .success
  | failed message => .failure message

/-- What a job listener is told: the firing, whether there is an instance of the job, and
the error, if the job has run and failed. -/
structure JobReport where
  job : JobKey
  trigger : TriggerKey
  firedAt : Instant
  scheduledAt : Instant
  hasInstance : Bool
  deriving DecidableEq

structure LaunchReport where
  taskId : Option String
  launchedAt : Instant
  description : Option String
  deriving DecidableEq

inductive LaunchHook
  | launching
  | succeeded
  | failed (message : String)
  deriving DecidableEq

inductive Event
  /-- An attempt to build an instance, and what the counter of the type then shows. -/
  | built (type : String) (number : Nat)
  /-- A call of a method; `run` counts the calls on the instance. -/
  | called (type method : String) (number run : Nat)
  | ran (label : String)
  | cron (listener : String) (hook : Hook) (firing : Firing)
  | toBeExecuted (listener : String) (report : JobReport)
  | wasExecuted (listener : String) (report : JobReport) (error : Option String)
  | launch (listener : String) (hook : LaunchHook) (report : LaunchReport)
  deriving DecidableEq

abbrev Journal := List Event

namespace Journal

def runs (j : Journal) (type : String) (number : Nat) : Nat :=
  j.countP fun
    | .called t _ n _ => t == type && n == number
    | _ => false

def buildName (type : String) : String := "new " ++ type

/-- The name under which builds or calls are counted. A type may be called so that its builds
and the calls of another's method share a counter. -/
def counterName : Event → Option String
  | .built type _ => some (buildName type)
  | .called type method _ _ => some (type ++ "@" ++ method)
  | _ => none

def counter (j : Journal) (name : String) : Nat := (j.filterMap counterName).count name

def counters (j : Journal) : List (String × Nat) :=
  let names := j.filterMap counterName
  names.eraseDups.map fun name => (name, j.counter name)

end Journal

end CronTasks
