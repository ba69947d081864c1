import CronTasks.JobDetail
import CronTasks.Table
import CronTasks.Trigger.Timing

namespace CronTasks.Trigger

open Calendar

/-- A trigger and the instant at which it fires next. -/
structure Pending where
  trigger : Trigger
  nextFire : Instant

namespace Pending

def resumed? (now : Instant) (p : Pending) : Except Payload (Option Pending) :=
  (p.trigger.timing.resume? p.nextFire now).map (·.map fun t => { p with nextFire := t })

def following? (now : Instant) (p : Pending) : Except Payload (Option Instant) :=
  p.trigger.timing.next? (p.trigger.timing.base p.nextFire now)

def backlog (p : Pending) (now : Instant) : Nat :=
  if now < p.nextFire then 0
  else
    match p.trigger.timing with
    | .cron _ _ => 1
    | .simple r => (now - p.nextFire).toNat / r.interval + 1

end Pending

structure Bundle where
  detail : JobDetail
  trigger : Trigger
  firedAt : Instant
  scheduledAt : Instant

/-- What a tick makes of a trigger: its firing, and whether it is left without a fire time. -/
structure Visit where
  bundle : Option Bundle
  pending : Pending
  exhausted : Bool

structure Store where
  jobs : Table JobKey JobDetail
  triggers : Table TriggerKey Pending

namespace Store

def empty : Store := ⟨[], []⟩

def triggersOf (s : Store) (job : JobKey) : List Trigger :=
  ((s.triggers.map (·.2.trigger)).filter (·.jobKey == job)).mergeSort
    fun t u => (t.key.compare u.key).isLE

def hasTrigger (s : Store) (job : JobKey) : Bool :=
  s.triggers.any (·.2.trigger.jobKey == job)

def jobKeys (s : Store) : List JobKey := s.jobs.keys.mergeSort fun j k => (j.compare k).isLE

def nextFire? (s : Store) (key : TriggerKey) : Option Instant :=
  (s.triggers.get? key).map (·.nextFire)

/-- The triggers in another order. A hash table visits its entries in an order of its own. -/
def arranged (s : Store) (rank : TriggerKey → Nat) : Store :=
  { s with triggers := s.triggers.mergeSort fun e f => rank e.1 ≤ rank f.1 }

def firstFire (now : Instant) (trigger : Trigger) : Except (Raised TriggerError) Instant :=
  match trigger.timing.first? now with
  | .error p => .error (.panic p)
  | .ok none => .error (.error (.neverFires trigger.key.display))
  | .ok (some t) => .ok t

def schedule (s : Store) (now : Instant) (detail : JobDetail) (trigger : Trigger) :
    Except (Raised TriggerError) (Instant × Store) :=
  if s.jobs.contains detail.key then .error (.error (.alreadyExists detail.key.display))
  else if s.triggers.contains trigger.key then
    .error (.error (.alreadyExists trigger.key.display))
  else
    match firstFire now trigger with
    | .error e => .error e
    | .ok t => .ok (t,
      { jobs := s.jobs.put detail.key detail
        triggers := s.triggers.put trigger.key ⟨{ trigger with jobKey := detail.key }, t⟩ })

def reschedule (s : Store) (now : Instant) (key : TriggerKey) (trigger : Trigger) :
    Except (Raised TriggerError) (Instant × Store) :=
  match s.triggers.get? key with
  | none => .error (.error (.triggerNotFound key.display))
  | some old =>
    if trigger.key ≠ key ∧ s.triggers.contains trigger.key then
      .error (.error (.alreadyExists trigger.key.display))
    else
      match firstFire now trigger with
      | .error e => .error e
      | .ok t => .ok (t,
        { s with
          triggers := (s.triggers.erase key).put trigger.key
            ⟨{ trigger with jobKey := old.trigger.jobKey }, t⟩ })

def delete (s : Store) (job : JobKey) : Bool × Store :=
  (s.jobs.contains job,
    { jobs := s.jobs.erase job
      triggers := s.triggers.filter fun e => e.2.trigger.jobKey != job })

def dropIdle (s : Store) : Store := { s with jobs := s.jobs.filter fun e => s.hasTrigger e.1 }

/-- Lets each trigger go on after a pause or drops it, and then the jobs without a trigger. A search
that panics breaks this off. -/
def resume (s : Store) (now : Instant) : Except Payload Unit × Store :=
  let (answer, done, rest) := s.triggers.pass (Pending.resumed? now)
  let s := { s with triggers := (done.filterMap fun e => e.2.map (e.1, ·)) ++ rest }
  match answer with
  | .error p => (.error p, s)
  | .ok () => (.ok (), s.dropIdle)

/-- A trigger that is due fires and is given its next fire time. -/
def visit (s : Store) (now : Instant) (p : Pending) : Except Payload Visit :=
  if now < p.nextFire then .ok ⟨none, p, false⟩
  else
    match s.jobs.get? p.trigger.jobKey with
    | none => .ok ⟨none, p, true⟩
    | some detail =>
      let bundle := some ⟨detail, p.trigger, now, p.nextFire⟩
      (p.following? now).map fun
        | some t => ⟨bundle, { p with nextFire := t }, false⟩
        | none => ⟨bundle, p, true⟩

/-- Takes out a trigger, and its job unless another trigger of it is left. -/
def retire (s : Store) (key : TriggerKey) : Store :=
  match s.triggers.get? key with
  | none => s
  | some p =>
    let rest : Store := { s with triggers := s.triggers.erase key }
    if rest.hasTrigger p.trigger.jobKey then rest
    else { rest with jobs := rest.jobs.erase p.trigger.jobKey }

/-- One tick: fires every trigger that is due, and then takes out those without a further fire time.
A search that panics breaks it off, and what has been fired by then is lost. -/
def acquire (s : Store) (now : Instant) : Except Payload (List Bundle) × Store :=
  let (answer, done, rest) := s.triggers.pass (s.visit now)
  let s := { s with triggers := (done.map fun e => (e.1, e.2.pending)) ++ rest }
  match answer with
  | .error p => (.error p, s)
  | .ok () =>
    (.ok (done.filterMap (·.2.bundle)),
      (done.filter (·.2.exhausted)).foldl (fun s e => s.retire e.1) s)

def due (s : Store) (now : Instant) : Bool := s.triggers.any fun e => e.2.nextFire ≤ now

def backlog (s : Store) (now : Instant) : Nat :=
  s.triggers.foldl (fun n e => max n (e.2.backlog now)) 0

/-- At most `n` ticks at one instant, as long as something is due and none of them panics. -/
def ticks (now : Instant) : Nat → Store → List Bundle × Except Payload Unit × Store
  | 0, s => ([], .ok (), s)
  | n + 1, s =>
    if s.due now then
      match s.acquire now with
      | (.error p, s) => ([], .error p, s)
      | (.ok fired, s) =>
        let (later, answer, s) := ticks now n s
        (fired ++ later, answer, s)
    else ([], .ok (), s)

def catchUp (s : Store) (now : Instant) : List Bundle × Except Payload Unit × Store :=
  ticks now (s.backlog now) s

end Store

end CronTasks.Trigger
