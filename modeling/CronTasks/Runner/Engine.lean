import CronTasks.Host
import CronTasks.Listeners
import CronTasks.Runner.Work

namespace CronTasks.Runner

open Calendar Cron

structure Entry where
  pattern : Pattern
  work : Work
  nextFire : Option Instant

namespace Entry

def due (x : Entry) (now : Instant) : Bool := x.nextFire.any (· ≤ now)

def renewed (zone : Option Zone) (now : Instant) (x : Entry) : Except Payload Entry :=
  (x.pattern.next? now zone).map fun t => { x with nextFire := t }

end Entry

structure Launch where
  taskId : Option String
  work : Work
  launchedAt : Instant

/-- Who is told about launches: a repository's own listener, which passes on what it hears
to the cron listeners, a listener that takes no notice, or a watcher with what becomes of its
three hooks. Watchers are told apart by number. -/
inductive LaunchListener
  | bridge
  | idle
  | watcher (number : Nat) (name : String) (launching succeeded failed : Outcome)
  deriving DecidableEq

namespace LaunchListener

def launching : LaunchListener → Outcome
  | .watcher _ _ o _ _ => o
  | _ => .success

def ended (ending : Ending) : LaunchListener → Outcome
  | .watcher _ _ _ succeeded failed => if ending.isSuccess then succeeded else failed
  | _ => .success

end LaunchListener

structure Engine where
  zone : Option Zone
  entries : Table String Entry
  /-- The ids, in the order in which they are given out. -/
  ids : Nat → String
  /-- How many ids were given out. -/
  issued : Nat
  running : Bool
  /-- Whether the timer runs. Where it broke off, the engine is still running. -/
  timer : Bool
  listeners : List LaunchListener
  audience : Audience
  /-- Launches that were asked for and have not been run. -/
  queue : List Launch
  journal : Journal

namespace Engine

/-- The `n`-th of a plain sequence of ids. Later ids are greater. -/
def idOf (n : Nat) : String :=
  let ds := Nat.toDigits 16 n
  "00000000-0000-4000-8000-" ++ String.ofList (List.replicate (12 - ds.length) '0' ++ ds)

def new (zone : Option Zone) (ids : Nat → String := idOf) : Engine :=
  { zone
    entries := []
    ids
    issued := 0
    running := false
    timer := false
    listeners := []
    audience := .empty
    queue := []
    journal := [] }

def launchId : String := "launch"

/-- The search for the first fire time of a pattern that is put in now. -/
def search (e : Engine) (host : Host) (pattern : Pattern) : Except Payload (Option Instant) := do
  pattern.next? (← host.now) e.zone

def schedule (e : Engine) (host : Host) (pattern : Pattern) (work : Work) :
    Except Payload String × Engine :=
  match e.search host pattern with
  | .error p => (.error p, e)
  | .ok nextFire =>
    let id := e.ids e.issued
    (.ok id, { e with
      entries := e.entries.put id ⟨pattern, work, nextFire⟩
      issued := e.issued + 1 })

def reschedule (e : Engine) (host : Host) (id : String) (pattern : Pattern) :
    Except Payload Bool × Engine :=
  match e.search host pattern with
  | .error p => (.error p, e)
  | .ok nextFire =>
    match e.entries.get? id with
    | none => (.ok false, e)
    | some entry => (.ok true, { e with entries := e.entries.put id { entry with pattern, nextFire } })

def deschedule (e : Engine) (id : String) : Bool × Engine :=
  (e.entries.contains id, { e with entries := e.entries.erase id })

def work? (e : Engine) (id : String) : Option Work := (e.entries.get? id).map (·.work)

def pattern? (e : Engine) (id : String) : Option Pattern := (e.entries.get? id).map (·.pattern)

def nextFire? (e : Engine) (id : String) : Option Instant :=
  (e.entries.get? id).bind (·.nextFire)

def taskIds (e : Engine) : List String := e.entries.keys.mergeSort

def addListener (e : Engine) (l : LaunchListener) : Engine :=
  { e with listeners := e.listeners ++ [l] }

def removeListener (e : Engine) (l : LaunchListener) : Bool × Engine :=
  (e.listeners.contains l, { e with listeners := e.listeners.filter (· != l) })

def launch (e : Engine) (host : Host) (work : Work) :
    Except (Raised RunnerError) Launch × Engine :=
  if !e.running then (.error (.error .notStarted), e)
  else if !host.runtime then (.error (.error .noRuntime), e)
  else
    match host.now with
    | .error p => (.error (.panic p), e)
    | .ok now =>
      let l := ⟨none, work, now⟩
      (.ok l, { e with queue := e.queue ++ [l] })

/-- Starts the timer. Fire times that have passed are left out. After a panic the engine counts as
running, without a timer. -/
def start (e : Engine) (host : Host) : Except (Raised RunnerError) Unit × Engine :=
  if !host.runtime then (.error (.error .noRuntime), e)
  else if e.running then (.error (.error .alreadyStarted), e)
  else
    match host.now with
    | .error p => (.error (.panic p), { e with running := true })
    | .ok now =>
      let (answer, done, rest) := e.entries.pass (Entry.renewed e.zone now)
      (answer.mapError .panic,
        { e with running := true, timer := answer.isOk, entries := done ++ rest })

def stop (e : Engine) : Except RunnerError Unit × Engine :=
  if e.running then (.ok (), { e with running := false, timer := false })
  else (.error .notStarted, e)

/-- Launches every entry that is due, which fires next after now. A search that panics breaks this
off, and nothing is launched. -/
def acquire (e : Engine) (now : Instant) : Except Payload (List Launch) × Engine :=
  let due := e.entries.filter fun x => x.2.due now
  let (answer, done, rest) := e.entries.pass fun x =>
    if x.due now then x.renewed e.zone now else .ok x
  (answer.map fun _ => due.map fun x => ⟨some x.1, x.2.work, now⟩,
    { e with entries := done ++ rest })

/-- What the timer launches. A panic ends the timer. -/
def tick (e : Engine) (host : Host) : List Launch × Engine :=
  if !e.timer then ([], e)
  else
    match host.now with
    | .error _ => ([], { e with timer := false })
    | .ok now =>
      match e.acquire now with
      | (.error _, e) => ([], { e with timer := false })
      | (.ok fired, e) => (fired, e)

def report (l : Launch) : LaunchReport := ⟨l.taskId, l.launchedAt, l.work.description⟩

def firing (l : Launch) : Firing := ⟨l.taskId.getD launchId, l.launchedAt⟩

def tell (relay : Act (Audience × Journal)) (note : String → Event)
    (own : LaunchListener → Outcome) (l : LaunchListener) : Act Engine := fun e =>
  match l with
  | .bridge =>
    let (outcome, audience, journal) := relay (e.audience, e.journal)
    (outcome, { e with audience, journal })
  | .idle => (.success, e)
  | .watcher _ name _ _ _ => (own l, { e with journal := e.journal ++ [note name] })

def tellAll (relay : Act (Audience × Journal)) (note : String → Event)
    (own : LaunchListener → Outcome) : Act Engine := fun e =>
  Act.each (fun l => (tell relay note own l).isolated) e.listeners e

def notifyLaunching (l : Launch) : Act Engine :=
  tellAll (Audience.dispatch .before (firing l)) (.launch · .launching (report l))
    LaunchListener.launching

def notifyEnded (l : Launch) (ending : Ending) : Act Engine :=
  let hook := match ending with
    | .succeeded => LaunchHook.succeeded
    | .failed message => LaunchHook.failed message
  tellAll (Audience.dispatchCompleted ending (firing l)) (.launch · hook (report l))
    (LaunchListener.ended ending)

/-- Runs a launch. Of a failure the outermost message is told. -/
def run (l : Launch) : Act Engine :=
  (notifyLaunching l).andThen fun e =>
    let (outcome, journal) := l.work.run e.journal
    let e := { e with journal }
    match outcome.caught "task" with
    | .ok () => notifyEnded l .succeeded e
    | .error failure => notifyEnded l (.failed failure.message) e

/-- Runs all that is due, in the order of ids, and then what was asked for. -/
def settle (e : Engine) (host : Host) : Engine :=
  let (fired, e) := e.tick host
  let due := fired.mergeSort fun a b => a.taskId.getD "" ≤ b.taskId.getD ""
  (due ++ e.queue).foldl (fun e l => (run l e).2) { e with queue := [] }

end Engine

end CronTasks.Runner
