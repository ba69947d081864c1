import CronTasks.Text.Quoted

namespace CronTasks

structure JobKey where
  name : String
  group : String
  deriving DecidableEq

structure TriggerKey where
  name : String
  group : String
  deriving DecidableEq

namespace JobKey

def display (k : JobKey) : String := k.group ++ "." ++ k.name

def compare (j k : JobKey) : Ordering :=
  (Ord.compare j.name k.name).then (Ord.compare j.group k.group)

/-- The name under which the job of a key is cached. -/
def identity (k : JobKey) : String := k.group ++ "@" ++ k.name

def triggerKey (k : JobKey) : TriggerKey := ⟨k.name, k.group⟩

def shown (k : JobKey) : String :=
  Text.shownRecord "JobKey" [("name", Text.quoted k.name), ("group", Text.quoted k.group)] .wholly

end JobKey

namespace TriggerKey

def display (k : TriggerKey) : String := k.group ++ "." ++ k.name

def compare (j k : TriggerKey) : Ordering :=
  (Ord.compare j.name k.name).then (Ord.compare j.group k.group)

end TriggerKey

end CronTasks
