import CronTasks.Cron.Pattern
import CronTasks.Outcome

namespace CronTasks

open Cron

/-- Failures of the trigger engine; keys are given as they are displayed. -/
inductive TriggerError
  | alreadyExists (key : String)
  | jobNotFound (job : String)
  | triggerNotFound (trigger : String)
  | neverFires (trigger : String)
  | instantiation (job cause : String)
  | noJobFactory
  | noRuntime
  deriving DecidableEq

def TriggerError.message : TriggerError → String
  | .alreadyExists key => "object already exists: " ++ key
  | .jobNotFound job => "job not found: " ++ job
  | .triggerNotFound trigger => "trigger not found: " ++ trigger
  | .neverFires trigger => "trigger " ++ trigger ++ " will never fire"
  | .instantiation job cause => "unable to instantiate job " ++ job ++ ": " ++ cause
  | .noJobFactory => "no job factory configured"
  | .noRuntime => "no tokio runtime available to drive the scheduler"

inductive RunnerError
  | alreadyStarted
  | notStarted
  | noRuntime
  | taskNotFound (id : String)
  deriving DecidableEq

def RunnerError.message : RunnerError → String
  | .alreadyStarted => "scheduler already started"
  | .notStarted => "scheduler not started"
  | .noRuntime => "no tokio runtime available"
  | .taskNotFound id => "task not found: " ++ id

inductive ResolveError
  | unknownType (type : String)
  | unknownMethod (type method : String)
  | instantiation (type : String) (cause : Failure)
  deriving DecidableEq

def ResolveError.message : ResolveError → String
  | .unknownType type => "type <" ++ type ++ "> is not registered"
  | .unknownMethod type method => "type <" ++ type ++ "> has no method <" ++ method ++ ">"
  | .instantiation type cause => "failed to instantiate <" ++ type ++ ">: " ++ cause.message

/-- What stands behind an error of a repository. -/
inductive Cause
  | expression (e : ExpressionError)
  | pattern (e : PatternError)
  | trigger (e : TriggerError)
  | runner (e : RunnerError)
  | resolve (e : ResolveError)
  | text (message : String)
  deriving DecidableEq

def Cause.message : Cause → String
  | .expression e => e.message
  | .pattern e => e.message
  | .trigger e => e.message
  | .runner e => e.message
  | .resolve e => e.message
  | .text message => message

/-- The failures that an engine reports for a bad expression. -/
inductive Marker
  | expression
  | pattern
  | trigger
  deriving DecidableEq

def Marker.marks : Marker → Cause → Bool
  | .expression, .expression _ => true
  | .pattern, .pattern _ => true
  | .trigger, .trigger _ => true
  | _, _ => false

def Marker.typeName : Marker → String
  | .expression => "cronrepo_core::expression::ExpressionError"
  | .pattern => "cronrepo_runner::engine::error::InvalidPatternError"
  | .trigger => "cronrepo_trigger::engine::error::SchedulerError"

def Marker.shown (m : Marker) : String :=
  Text.shownTuple "ExpressionErrorType" (Text.quoted m.typeName)

inductive ErrorKind
  | invalidInput
  | configuration
  | internal
  | contract
  deriving DecidableEq

def ErrorKind.shown : ErrorKind → String
  | .invalidInput => "InvalidInput"
  | .configuration => "Configuration"
  | .internal => "Internal"
  | .contract => "Contract"

inductive RepositoryError
  | invalidExpression (cause : Cause)
  | invalidArgument (message : String)
  | illegalState (message : String)
  | internal (cause : Cause)
  | missingArgument (name : String)
  | unsupportedBody (kind engine : String)
  deriving DecidableEq

namespace RepositoryError

def message : RepositoryError → String
  | invalidExpression _ => "Invalid expression."
  | invalidArgument m | illegalState m => m
  | internal cause => "cron engine failure: " ++ cause.message
  | missingArgument name => "required argument <" ++ name ++ "> is missing"
  | unsupportedBody kind engine =>
    "task body <" ++ kind ++ "> is not supported by the " ++ engine ++ " engine"

def kind : RepositoryError → ErrorKind
  | invalidExpression _ | invalidArgument _ => .invalidInput
  | illegalState _ => .configuration
  | internal _ => .internal
  | missingArgument _ | unsupportedBody _ _ => .contract

def isInvalidExpression : RepositoryError → Bool
  | invalidExpression _ => true
  | _ => false

def cause? : RepositoryError → Option Cause
  | invalidExpression cause | internal cause => some cause
  | _ => none

/-- An engine's failure is an invalid expression if it is marked as one. -/
def ofCause (marker : Option Marker) (cause : Cause) : RepositoryError :=
  if marker.any (·.marks cause) then invalidExpression cause else internal cause

def normalize {α : Type} (marker : Option Marker) (answer : Except Cause α) :
    Except RepositoryError α :=
  answer.mapError (ofCause marker)

end RepositoryError

def requireText (value name : String) : Except RepositoryError String :=
  if Text.blank value then .error (.missingArgument name) else .ok value

end CronTasks
