import CronTasks.Cron.Expression

namespace CronTasks.Cron

open Calendar Text

structure PatternError where
  pattern : String
  reason : String
  deriving DecidableEq

def PatternError.message (e : PatternError) : String :=
  "invalid scheduling pattern '" ++ e.pattern ++ "': " ++ e.reason

structure Pattern where
  text : String
  alternatives : List Expression

namespace Pattern

instance : BEq Pattern := ⟨fun p q => p.text == q.text⟩

def parseAlternative (cs : List Char) : Except String Expression :=
  if cs.all isBlank then .error "empty alternative"
  else (Expression.parseUnix (String.ofList cs)).mapError (·.message)

def parseAlternatives (cs : List Char) : Except String (List Expression) :=
  if cs.all isBlank then .error "pattern is empty"
  else (cs.splitOn '|').mapM parseAlternative

def parse (s : String) : Except PatternError Pattern :=
  match parseAlternatives s.toList with
  | .ok alternatives => .ok ⟨s, alternatives⟩
  | .error reason => .error ⟨s, reason⟩

def valid (s : String) : Bool := (parse s).toOption.isSome

/-- The earliest of what the alternatives find; one search that panics is enough for a panic. -/
def next? (p : Pattern) (after : Instant) (zone : Option Zone) : Except Payload (Option Instant) := do
  let found ← p.alternatives.mapM (·.next? after zone)
  return (found.filterMap id).min?

def shown (p : Pattern) : String := shownTuple "SchedulingPattern" (quoted p.text)

end Pattern

end CronTasks.Cron
