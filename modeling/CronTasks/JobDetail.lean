import CronTasks.Key
import CronTasks.Error

namespace CronTasks

/-- The kinds of jobs: those that call a method, and any other, by its name. -/
inductive JobType
  | method
  | other (name : String)
  deriving DecidableEq

def JobType.name : JobType → String
  | .method => "cronrepo_trigger::method_job::MethodLevelJob"
  | .other name => name

def JobType.shown (t : JobType) : String := Text.shownTuple "JobType" (Text.quoted t.name)

def JobType.check : JobType → Except RepositoryError Unit
  | .method => .ok ()
  | .other name => .error <| .invalidArgument <|
    "job type <" ++ name ++ "> is not supported, expected <" ++ JobType.method.name ++ ">"

structure JobDetail where
  key : JobKey
  type : JobType
  description : Option String
  deriving DecidableEq

def JobDetail.ofMethod (type method : String) : JobDetail := ⟨⟨method, type⟩, .method, none⟩

end CronTasks
