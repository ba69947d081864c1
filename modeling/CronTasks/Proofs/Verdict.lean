import CronTasks.Error

namespace CronTasks

/-- What a registration comes to. -/
inductive Verdict
  | registered
  | missingArgument
  | unsupportedBody
  | invalidArgument
  | illegalState
  | invalidExpression
  | internal
  | panicked
  deriving DecidableEq

namespace Verdict

def ofError : RepositoryError → Verdict
  | .missingArgument _ => missingArgument
  | .unsupportedBody _ _ => unsupportedBody
  | .invalidArgument _ => invalidArgument
  | .illegalState _ => illegalState
  | .invalidExpression _ => invalidExpression
  | .internal _ => internal

def of : Except (Raised RepositoryError) String → Verdict
  | .ok _ => registered
  | .error (.error err) => ofError err
  | .error (.panic _) => panicked

/-- The verdict of the first fault that is there. -/
def firstOf : List (Bool × Verdict) → Verdict
  | [] => registered
  | (fault, verdict) :: rest => if fault then verdict else firstOf rest

end Verdict

namespace Outcome

def fails : Outcome → Bool
  | .failure _ => true
  | _ => false

def panics : Outcome → Bool
  | .panic _ => true
  | _ => false

end Outcome

end CronTasks
