import CronTasks.Cron.Expression
import CronTasks.Document.Json
import CronTasks.Key

namespace CronTasks.Trigger

open Calendar Cron Document

structure Word where
  low : Int
  high : Int

namespace Word

def signed64 : Word := ⟨-9223372036854775808, 9223372036854775807⟩

def unsigned64 : Word := ⟨0, Text.Numeral.max64⟩

/-- Lengths of time in milliseconds are signed words, but for the least one. -/
def millis : Word := ⟨-9223372036854775807, 9223372036854775807⟩

def fits? (w : Word) (n : Int) : Option Int := if w.low ≤ n ∧ n ≤ w.high then some n else none

def keep (w : Word) (n : Int) : Except Payload Int := (w.fits? n).elim (.error .overflow) .ok

end Word

/-- An instant, and then every interval, in milliseconds, a number of times or for ever. -/
structure Repetition where
  startAt : Instant
  interval : Nat
  repeats : Option Nat
  deriving DecidableEq

namespace Repetition

def once (t : Instant) : Repetition := ⟨t, 0, some 0⟩

def instant? (r : Repetition) (k : Nat) : Option Instant :=
  r.startAt.plus? (k * r.interval : Nat)

def next? (r : Repetition) (after : Instant) : Option Instant :=
  if after < r.startAt then some r.startAt
  else if r.interval = 0 then none
  else
    let k := (after - r.startAt).toNat / r.interval + 1
    if r.repeats.any (· < k) then none else r.instant? k

/-- The instant of an index as machine words give it: the index is multiplied with the interval,
without a sign, and the product is added to the start as a length of time. -/
def instantInWords (r : Repetition) (index : Int) : Except Payload (Option Instant) :=
  match (Word.unsigned64.fits? (index * r.interval)).bind Word.signed64.fits? with
  | none => .ok none
  | some offset => (Word.millis.keep offset).map r.startAt.plus?

def nextInWords (r : Repetition) (after : Instant) : Except Payload (Option Instant) :=
  if after < r.startAt then .ok (some r.startAt)
  else if r.interval = 0 then .ok none
  else
    (Word.signed64.keep (after - r.startAt)).bind fun elapsed =>
      (Word.unsigned64.fits? elapsed).elim (.ok none) fun elapsed =>
        (Word.unsigned64.keep (elapsed / r.interval + 1)).bind fun index =>
          if r.repeats.any fun n : Nat => (n : Int) < index then .ok none
          else r.instantInWords index

end Repetition

inductive Timing
  | cron (expression : Expression) (zone : Option Zone)
  | simple (repetition : Repetition)

def grace : Int := 60000

namespace Timing

def next? : Timing → Instant → Except Payload (Option Instant)
  | cron e zone, after => e.next? after zone
  | simple r, after => .ok (r.next? after)

/-- The first fire time of what is scheduled now. A repetition that began less than the
grace ago begins with its start. -/
def first? (t : Timing) (now : Instant) : Except Payload (Option Instant) :=
  match t with
  | simple r => .ok (if now - r.startAt ≤ grace then some r.startAt else r.next? now)
  | cron _ _ => t.next? now

def resume? (t : Timing) (pending now : Instant) : Except Payload (Option Instant) :=
  if now - pending ≤ grace then .ok (some pending) else t.next? now

/-- The instant after which a trigger that has fired looks for its next fire time. A
repetition catches up with its schedule, an expression does not. -/
def base (t : Timing) (fired now : Instant) : Instant :=
  match t with
  | simple _ => fired
  | cron _ _ => now

end Timing

end CronTasks.Trigger

namespace CronTasks

open Calendar Cron Document Trigger

structure Trigger where
  key : TriggerKey
  jobKey : JobKey
  timing : Timing

namespace Trigger

def write (t : Trigger) : String :=
  let keys :=
    [("key", writeKey t.key.name t.key.group), ("jobKey", writeKey t.jobKey.name t.jobKey.group)]
  match t.timing with
  | .cron e zone => Json.writeTable <|
    ("kind", Json.quoted "cron") :: keys ++ [("expression", Json.quoted e.text)] ++
    (zone.map fun z => ("timezone", Json.quoted z.name)).toList
  | .simple r => Json.writeTable <|
    ("kind", Json.quoted "simple") :: keys ++
    [("startAt", Json.quoted r.startAt.text), ("intervalMs", toString r.interval)] ++
    (r.repeats.map fun n => ("repeatCount", toString n)).toList
where
  writeKey (name group : String) : String :=
    Json.writeTable [("name", Json.quoted name), ("group", Json.quoted group)]

def expression (t : Trigger) : String :=
  match t.timing with
  | .cron e _ => e.text
  | .simple _ => t.write

end Trigger

end CronTasks
