import CronTasks.JobDetail

namespace CronTasks

open Text

structure Runnable where
  label : String
  description : Option String
  outcome : Outcome
  deriving DecidableEq

def Runnable.shown (r : Runnable) : String :=
  shownRecord "RunnableTaskBody" [("description", shownOption (r.description.map quoted))] .partly

/-- A body is a method by name, code, or a job; bodies of other kinds have only a name. -/
inductive Body
  | method (type name : String)
  | runnable (r : Runnable)
  | job (detail : JobDetail)
  | other (kind : String)
  deriving DecidableEq

def Body.kind : Body → String
  | .method _ _ => "MethodTaskBody"
  | .runnable _ => "RunnableTaskBody"
  | .job _ => "JobDetailTaskBody"
  | .other kind => kind

def Body.isMethod : Body → Bool
  | .method _ _ => true
  | _ => false

def Body.isRunnable : Body → Bool
  | .runnable _ => true
  | _ => false

def Body.isJob : Body → Bool
  | .job _ => true
  | _ => false

def shownMethodBody (type name : String) : String :=
  shownRecord "MethodTaskBody" [("declaring_type", quoted type), ("method", quoted name)] .wholly

end CronTasks
