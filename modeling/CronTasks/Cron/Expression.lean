import CronTasks.Cron.Search
import CronTasks.Cron.Weekday
import CronTasks.Text.Blank
import CronTasks.Text.Quoted

namespace CronTasks.Cron

open Calendar Text

inductive ExpressionFault
  | empty
  | weekday (item : String)
  | grammar
  deriving DecidableEq

def ExpressionFault.message : ExpressionFault → String
  | .empty => "expression is empty"
  | .weekday item => "invalid day of week '" ++ item ++ "'"
  | .grammar => "Invalid expression: Invalid cron expression."

structure ExpressionError where
  expression : String
  reason : String
  deriving DecidableEq

def ExpressionError.message (e : ExpressionError) : String :=
  "invalid cron expression '" ++ e.expression ++ "': " ++ e.reason

structure Expression where
  text : String
  schedule : Schedule

namespace Expression

/-- Expressions are the same when their texts are. -/
instance : BEq Expression := ⟨fun e f => e.text == f.text⟩

def schedule? (s : String) : Except ExpressionFault Schedule :=
  match trim s.toList with
  | [] => .error .empty
  | cs =>
    match Schedule.read? cs with
    | some schedule => .ok schedule
    | none => .error .grammar

/-- The schedule of a text with five fields: the second is 0, and the year is open. Any
other number of words is read as six or seven fields. -/
def unixSchedule? (s : String) : Except ExpressionFault Schedule :=
  match words s.toList with
  | [minute, hour, day, month, weekday] =>
    match Weekday.renumber weekday with
    | .error item => .error (.weekday (String.ofList item))
    | .ok weekday =>
      match Schedule.read? ([' '].intercalate [['0'], minute, hour, day, month, weekday, ['*']]) with
      | some schedule => .ok schedule
      | none => .error .grammar
  | _ => schedule? s

def ofSchedule (s : String) : Except ExpressionFault Schedule → Except ExpressionError Expression
  | .ok schedule => .ok ⟨s, schedule⟩
  | .error fault => .error ⟨s, fault.message⟩

def parse (s : String) : Except ExpressionError Expression := ofSchedule s (schedule? s)

/-- Reads five fields in UNIX numbering, or else as `parse` does. -/
def parseUnix (s : String) : Except ExpressionError Expression := ofSchedule s (unixSchedule? s)

def valid (s : String) : Bool := (parse s).toOption.isSome

def next? (e : Expression) (after : Instant) (zone : Option Zone) :
    Except Payload (Option Instant) :=
  e.schedule.next? (zone.getD .utc) after

def shown (e : Expression) : String := shownTuple "CronExpression" (quoted e.text)

end Expression

end CronTasks.Cron
