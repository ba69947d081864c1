import CronTasks.Host
import CronTasks.Listeners
import CronTasks.Trigger.Factory
import CronTasks.Trigger.Id
import CronTasks.Trigger.Store

namespace CronTasks.Trigger

open Calendar

/-- Who is told about jobs: a repository's own listener, which passes on what it hears to the
cron listeners, a listener that takes no notice, or a watcher with what becomes of its two
hooks. -/
inductive JobListener
  | bridge
  | idle (name : String)
  | watcher (name : String) (toBeExecuted wasExecuted : Outcome)
  deriving DecidableEq

namespace JobListener

def name : JobListener → String
  | .bridge => "cronrepo-listener-bridge"
  | .idle name | .watcher name _ _ => name

def toBeExecuted : JobListener → Outcome
  | .watcher _ o _ => o
  | _ => .success

def wasExecuted : JobListener → Outcome
  | .watcher _ _ o => o
  | _ => .success

end JobListener

def mostThreads : Nat := 2305843009213693951

/-- How many threads there are: at least one, and no more than can be counted. -/
@[ext]
structure Threads where
  count : Nat
  one_le : 1 ≤ count
  le_most : count ≤ mostThreads

namespace Threads

def ofCount (n : Nat) : Except Payload Threads :=
  if h : max n 1 ≤ mostThreads then .ok ⟨max n 1, Nat.le_max_right n 1, h⟩ else .error .crowded

end Threads

structure Engine where
  name : String
  threads : Threads
  running : Bool
  /-- Whether the timer runs. Where it broke off, the engine is still running. -/
  timer : Bool
  store : Store
  factory : Option Factory
  jobListeners : List JobListener
  audience : Audience
  /-- Firings that were asked for and have not been run. -/
  queue : List Bundle
  journal : Journal

namespace Engine

def fresh (name : String) (threads : Threads) : Engine :=
  { name
    threads
    running := false
    timer := false
    store := .empty
    factory := none
    jobListeners := []
    audience := .empty
    queue := []
    journal := [] }

def new (name : String) (threads : Nat) : Except Payload Engine :=
  (Threads.ofCount threads).map (fresh name)

def addJobListener (e : Engine) (l : JobListener) : Engine :=
  { e with jobListeners := e.jobListeners.filter (·.name != l.name) ++ [l] }

def removeJobListener (e : Engine) (name : String) : Bool × Engine :=
  (e.jobListeners.any (·.name == name),
    { e with jobListeners := e.jobListeners.filter (·.name != name) })

/-- Applies a change of the store as of now, which may be refused. -/
def update {α : Type} (e : Engine) (host : Host)
    (change : Instant → Except (Raised TriggerError) (α × Store)) :
    Except (Raised TriggerError) α × Engine :=
  match host.now with
  | .error p => (.error (.panic p), e)
  | .ok now =>
    match change now with
    | .error err => (.error err, e)
    | .ok (a, store) => (.ok a, { e with store })

def schedule (e : Engine) (host : Host) (detail : JobDetail) (trigger : Trigger) :
    Except (Raised TriggerError) Instant × Engine :=
  e.update host fun now => e.store.schedule now detail trigger

def reschedule (e : Engine) (host : Host) (key : TriggerKey) (trigger : Trigger) :
    Except (Raised TriggerError) Instant × Engine :=
  e.update host fun now => e.store.reschedule now key trigger

def delete (e : Engine) (job : JobKey) : Bool × Engine :=
  ((e.store.delete job).1, { e with store := (e.store.delete job).2 })

def manual (job : JobKey) (now : Instant) : Trigger :=
  ⟨⟨"", "MANUAL_TRIGGER"⟩, job, .simple (.once now)⟩

def fire (e : Engine) (host : Host) (job : JobKey) :
    Except (Raised TriggerError) Unit × Engine :=
  if !host.runtime then (.error (.error .noRuntime), e)
  else
    match e.store.jobs.get? job with
    | none => (.error (.error (.jobNotFound job.display)), e)
    | some detail =>
      match host.now with
      | .error p => (.error (.panic p), e)
      | .ok now => (.ok (), { e with queue := e.queue ++ [⟨detail, manual job now, now, now⟩] })

/-- Starts the timer, after the store has been brought up to date; an engine that runs goes
on as it is. After a panic the engine counts as running, without a timer. -/
def start (e : Engine) (host : Host) : Except (Raised TriggerError) Unit × Engine :=
  if !host.runtime then (.error (.error .noRuntime), e)
  else if e.running then (.ok (), e)
  else
    match host.now with
    | .error p => (.error (.panic p), { e with running := true })
    | .ok now =>
      match e.store.resume now with
      | (.error p, store) => (.error (.panic p), { e with running := true, store })
      | (.ok (), store) => (.ok (), { e with running := true, timer := true, store })

def standby (e : Engine) : Engine := { e with running := false, timer := false }

def report (b : Bundle) (hasInstance : Bool) : JobReport :=
  ⟨b.detail.key, b.trigger.key, b.firedAt, b.scheduledAt, hasInstance⟩

def firing (b : Bundle) : Firing := ⟨b.detail.key.id, b.firedAt⟩

def tell (relay : Act (Audience × Journal)) (note : String → Event) (own : JobListener → Outcome)
    (l : JobListener) : Act Engine := fun e =>
  match l with
  | .bridge =>
    let (outcome, audience, journal) := relay (e.audience, e.journal)
    (outcome, { e with audience, journal })
  | .idle _ => (.success, e)
  | .watcher name _ _ => (own l, { e with journal := e.journal ++ [note name] })

def tellAll (relay : Act (Audience × Journal)) (note : String → Event)
    (own : JobListener → Outcome) : Act Engine := fun e =>
  Act.each (fun l => (tell relay note own l).isolated) e.jobListeners e

def notifyToBeExecuted (b : Bundle) : Act Engine :=
  tellAll (Audience.dispatch .before (firing b)) (.toBeExecuted · (report b true))
    JobListener.toBeExecuted

def notifyWasExecuted (b : Bundle) (hasInstance : Bool) (error : Option String) : Act Engine :=
  let ending := match error with
    | none => Ending.succeeded
    | some message => Ending.failed message
  tellAll (Audience.dispatchCompleted ending (firing b))
    (.wasExecuted · (report b hasInstance) error) JobListener.wasExecuted

/-- The job of a firing. Listeners hear of a job whose type is refused. -/
def newJob (e : Engine) (b : Bundle) : Option (Except (Raised TriggerError) MethodJob) × Engine :=
  let failed (err : RepositoryError) : TriggerError :=
    .instantiation b.detail.key.display err.message
  match e.factory with
  | none => (some (.error (.error .noJobFactory)), e)
  | some f =>
    match b.detail.type.check with
    | .error err =>
      match notifyWasExecuted b false (some err.message) e with
      | (.panic p, e) => (some (.error (.panic p)), e)
      | (_, e) => (some (.error (.error (failed err))), e)
    | .ok () =>
      let (answer, f, journal) := f.methodJob b.detail.key e.journal
      (answer.map (Raised.mapError failed), { e with factory := some f, journal })

def execute (e : Engine) (job : MethodJob) : Outcome × Engine :=
  let (outcome, journal) := job.bound.call e.journal
  (outcome, { e with journal })

def perform (b : Bundle) (job : MethodJob) : Act Engine :=
  (notifyToBeExecuted b).andThen fun e =>
    let (outcome, e) := e.execute job
    match outcome.caught "job" with
    | .ok () => notifyWasExecuted b true none e
    | .error failure => notifyWasExecuted b true (some failure.chain) e

/-- Runs a firing. Without a job nothing more happens, nor where it is waited for without end. -/
def run (b : Bundle) : Act Engine := fun e =>
  match e.newJob b with
  | (some (.ok job), e) => perform b job e
  | (some (.error (.panic p)), e) => (.panic p, e)
  | (some (.error (.error _)), e) | (none, e) => (.success, e)

/-- What the timer fires until nothing is due. A panic ends the timer. -/
def tick (e : Engine) (host : Host) : List Bundle × Engine :=
  if !e.timer then ([], e)
  else
    match host.now with
    | .error _ => ([], { e with timer := false })
    | .ok now =>
      let (fired, answer, store) := e.store.catchUp now
      (fired, { e with timer := answer.isOk, store })

/-- Runs what was asked for and all that is due. Tasks are taken in the order of their
displayed keys, and the firings of a task as they came; a panic ends only its own firing. -/
def settle (e : Engine) (host : Host) : Engine :=
  let (fired, e) := e.tick host
  let bundles := (e.queue ++ fired).mergeSort fun a b => a.detail.key.display ≤ b.detail.key.display
  bundles.foldl (fun e b => (run b e).2) { e with queue := [] }

end Engine

end CronTasks.Trigger
