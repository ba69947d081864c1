import CronTasks.JobDetail
import CronTasks.Methods

namespace CronTasks.Trigger

structure MethodJob where
  identity : String
  bound : BoundMethod

def MethodJob.shown (j : MethodJob) : String :=
  Text.shownRecord "MethodLevelJob" [("identity", Text.quoted j.identity)] .partly

/-- Keys name a type and a method of it. Blank names are wrong arguments; names that are not
registered are a matter of configuration. -/
def checkKey (r : Registry) (key : JobKey) : Except RepositoryError Unit :=
  if Text.blank key.group then
    .error (.invalidArgument "job group must name the declaring type")
  else if Text.blank key.name then
    .error (.invalidArgument "job name must name the method")
  else if !r.hasType key.group then
    .error (.illegalState ("declaring type <" ++ key.group ++ "> cannot be resolved"))
  else if !r.hasMethod key.group key.name then
    .error (.illegalState
      ("method <" ++ key.name ++ "> cannot be resolved on <" ++ key.group ++ ">"))
  else .ok ()

/-- A place for the job of an identity. It is locked while the job is built. A constructor that panics
then poisons the lock, of which later calls take no notice. -/
structure Slot where
  job : Option MethodJob
  locked : Bool
  poisoned : Bool

structure Factory where
  registry : Registry
  cache : Table String Slot

namespace Factory

def ofRegistry (r : Registry) : Factory := ⟨r, []⟩

def slot (f : Factory) (identity : String) : Slot :=
  (f.cache.get? identity).getD ⟨none, false, false⟩

def cachedJobs (f : Factory) : Nat := f.cache.countP (·.2.job.isSome)

def setSlot (f : Factory) (identity : String) (slot : Slot) : Factory :=
  { f with cache := f.cache.put identity slot }

def lock (f : Factory) (identity : String) : Factory :=
  f.setSlot identity { f.slot identity with locked := true }

def finish (f : Factory) (identity : String) (b : BoundMethod) (o : Outcome) :
    Except (Raised RepositoryError) MethodJob × Factory :=
  let slot := { f.slot identity with locked := false }
  match Registry.built b.target.type (⟨identity, b⟩ : MethodJob) o with
  | .ok job => (.ok job, f.setSlot identity { slot with job := some job })
  | .error (.error e) => (.error (.error (.illegalState e.message)), f.setSlot identity slot)
  | .error (.panic p) => (.error (.panic p), f.setSlot identity { slot with poisoned := true })

def toldOf : Option (Except (Raised RepositoryError) MethodJob) →
    Option (Except (Raised RepositoryError) Unit) :=
  Option.map (·.map fun _ => ())

/-- The job of a key, built if none is kept under its identity. What fails is not kept. A constructor
may ask for other jobs in the meantime, within a depth; a call that waits for a slot which is locked
never ends. -/
def methodJobWithin : Nat → JobKey → Factory × Journal →
    Option (Except (Raised RepositoryError) MethodJob) × Factory × Journal
  | 0, _, s => (none, s)
  | depth + 1, key, (f, journal) =>
    match checkKey f.registry key with
    | .error e => (some (.error (.error e)), f, journal)
    | .ok () =>
      match f.slot key.identity with
      | ⟨_, true, _⟩ => (none, f, journal)
      | ⟨some job, false, _⟩ => (some (.ok job), f, journal)
      | ⟨none, false, poisoned⟩ =>
        match f.registry.prepare key.group key.name journal with
        | .error e =>
          (some (.error (.error (.illegalState e.message))),
            f.setSlot key.identity ⟨none, false, poisoned⟩, journal)
        | .ok (b, c) =>
          let ask (key : JobKey) (s : Factory × Journal) :=
            let (answer, s) := methodJobWithin depth key s
            (toldOf answer, s)
          match c.run ask (f.lock key.identity, journal ++ [.built key.group b.target.number]) with
          | (none, s) => (none, s)
          | (some o, f, journal) =>
            let (answer, f) := f.finish key.identity b o
            (some answer, f, journal)

def identities (r : Registry) : List String :=
  r.flatMap fun e => e.2.methods.keys.map fun name => JobKey.identity ⟨name, e.1⟩

/-- The job of a key. Every constructor that is at work holds the slot of a method of its own, so that
there is no greater depth than there are methods. -/
def methodJob (f : Factory) (key : JobKey) (journal : Journal) :
    Option (Except (Raised RepositoryError) MethodJob) × Factory × Journal :=
  methodJobWithin ((identities f.registry).length + 1) key (f, journal)

def shown (f : Factory) : String :=
  Text.shownRecord "MethodLevelJobFactory" [("cached_jobs", toString f.cachedJobs)] .partly

end Factory

end CronTasks.Trigger
