import CronTasks.Body
import CronTasks.Lifecycle
import CronTasks.TaskInfo
import CronTasks.Trigger.Engine

namespace CronTasks.Trigger

open Calendar Cron

structure Repository where
  engine : Engine
  lifecycle : Lifecycle
  zone : Option Zone

namespace Repository

def engineName : String := "trigger"

def attach (e : Engine) (r : Registry) (zone : Option Zone) : Repository :=
  { engine := { e.addJobListener .bridge with factory := some (.ofRegistry r) }
    lifecycle := .stopped
    zone }

def detached (e : Engine) : Repository := ⟨e, .stopped, none⟩

def registry (repo : Repository) : Registry :=
  match repo.engine.factory with
  | some f => f.registry
  | none => []

def cronTrigger (repo : Repository) (job : JobKey) (e : Expression) : Trigger :=
  ⟨job.triggerKey, job, .cron e repo.zone⟩

def supports : Body → Bool
  | .method _ _ | .job _ => true
  | _ => false

def detail (b : Body) : Except RepositoryError JobDetail :=
  match b with
  | .method type name => .ok (.ofMethod type name)
  | .job detail => .ok detail
  | b => .error (.unsupportedBody b.kind engineName)

/-- The job to register, once the arguments have been found good. -/
def accept (repo : Repository) (expression : String) (b : Body) :
    Except RepositoryError JobDetail := do
  let _ ← requireText expression "expression"
  let detail ← detail b
  detail.type.check
  checkKey repo.registry detail.key
  return detail

def parse (expression : String) : Except Cause Expression :=
  (Expression.parse expression).mapError .expression

def normalized (cause : Cause) : RepositoryError :=
  RepositoryError.ofCause (some .expression) cause

/-- Schedules a body and answers the id of its task. -/
def register (repo : Repository) (host : Host) (expression : String) (b : Body) :
    Except (Raised RepositoryError) String × Repository :=
  match repo.accept expression b with
  | .error err => (.error (.error err), repo)
  | .ok detail =>
    match parse expression with
    | .error cause => (.error (.error (normalized cause)), repo)
    | .ok e =>
      let (answer, engine) := repo.engine.schedule host detail (repo.cronTrigger detail.key e)
      (Raised.mapError (normalized <| .trigger ·) (answer.map fun _ => detail.key.id),
        { repo with engine })

def infoOf (repo : Repository) (job : JobKey) : Option TaskInfo := do
  let detail ← repo.engine.store.jobs.get? job
  let trigger ← (repo.engine.store.triggersOf job).head?
  some ⟨job.id, trigger.expression, detail.description⟩

def info (repo : Repository) (id : String) : Option TaskInfo := do
  repo.infoOf (← JobKey.ofId? id)

def all (repo : Repository) : List TaskInfo :=
  repo.engine.store.jobKeys.filterMap repo.infoOf

def keyOf (id : String) : Except Cause JobKey :=
  match JobKey.ofId? id with
  | some job => .ok job
  | none => .error (.trigger (.jobNotFound id))

def replacement (repo : Repository) (id expression : String) :
    Except Cause (TriggerKey × Trigger) := do
  let e ← parse expression
  let job ← keyOf id
  match repo.engine.store.triggersOf job with
  | [] => .error (.trigger (.triggerNotFound job.display))
  | t :: _ => .ok (t.key, repo.cronTrigger job e)

def update (repo : Repository) (host : Host) (id expression : String) :
    Except (Raised RepositoryError) Unit × Repository :=
  match requireText id "id", requireText expression "expression" with
  | .error err, _ | .ok _, .error err => (.error (.error err), repo)
  | .ok _, .ok _ =>
    match repo.replacement id expression with
    | .error cause => (.error (.error (normalized cause)), repo)
    | .ok (key, trigger) =>
      let (answer, engine) := repo.engine.reschedule host key trigger
      (Raised.mapError (normalized <| .trigger ·) (answer.map fun _ => ()), { repo with engine })

/-- Removes a task; there has to be one. -/
def remove (repo : Repository) (id : String) : Except RepositoryError Unit × Repository :=
  match requireText id "id" with
  | .error err => (.error err, repo)
  | .ok _ =>
    match keyOf id with
    | .error cause => (.error (.internal cause), repo)
    | .ok job =>
      match repo.engine.delete job with
      | (true, engine) => (.ok (), { repo with engine })
      | (false, engine) =>
        (.error (.internal (.trigger (.jobNotFound job.display))), { repo with engine })

def start (repo : Repository) (host : Host) :
    Except (Raised RepositoryError) Unit × Repository :=
  let (answer, lifecycle, engine) := repo.lifecycle.start
    (fun e => let (answer, e) := e.start host
      (Raised.mapError (.internal <| .trigger ·) answer, e)) repo.engine
  (answer, { repo with lifecycle, engine })

def stop (repo : Repository) : Except RepositoryError Unit × Repository :=
  let (answer, lifecycle, engine) := repo.lifecycle.stop
    (fun e => (.ok (), e.standby)) repo.engine
  (answer, { repo with lifecycle, engine })

def restart (repo : Repository) (host : Host) :
    Except (Raised RepositoryError) Unit × Repository :=
  match repo.stop with
  | (.error err, repo) => (.error (.error err), repo)
  | (.ok (), repo) => repo.start host

def isStarted (repo : Repository) : Bool := repo.lifecycle.isRunning

def addListener (repo : Repository) (name : String) (l : CronListener) : Repository :=
  { repo with engine := { repo.engine with
      audience := (repo.engine.audience.introduce name l).add name } }

def removeListener (repo : Repository) (name : String) : Bool × Repository :=
  let (answer, audience) := repo.engine.audience.remove name
  (answer, { repo with engine := { repo.engine with audience } })

def settle (repo : Repository) (host : Host) : Repository :=
  { repo with engine := repo.engine.settle host }

end Repository

end CronTasks.Trigger
