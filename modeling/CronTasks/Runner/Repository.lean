import CronTasks.Lifecycle
import CronTasks.TaskInfo
import CronTasks.Runner.Engine

namespace CronTasks.Runner

open Calendar Cron

structure Repository where
  engine : Engine
  lifecycle : Lifecycle
  registry : Option Registry

namespace Repository

def engineName : String := "runner"

def attach (e : Engine) (registry : Option Registry) : Repository :=
  { engine := e.addListener .bridge
    lifecycle := .stopped
    registry }

def supports (repo : Repository) : Body → Bool
  | .runnable _ => true
  | .method _ _ => repo.registry.isSome
  | _ => false

def parse (expression : String) : Except RepositoryError Pattern :=
  RepositoryError.normalize (some .pattern) ((Pattern.parse expression).mapError .pattern)

/-- The pattern to register, once the arguments have been found good. -/
def accept (repo : Repository) (expression : String) (b : Body) :
    Except RepositoryError Pattern := do
  let _ ← requireText expression "expression"
  if !repo.supports b then .error (.unsupportedBody b.kind engineName)
  else parse expression

def work (repo : Repository) (b : Body) :
    Except (Raised RepositoryError) Work × Journal :=
  match b, repo.registry with
  | .runnable r, _ => (.ok (.runnable r), repo.engine.journal)
  | .method type name, some registry => Work.ofMethod registry type name repo.engine.journal
  | b, _ => (.error (.error (.unsupportedBody b.kind engineName)), repo.engine.journal)

/-- Schedules a body and answers its id. The constructor of a method's type may panic, and
the search for the first fire time. -/
def register (repo : Repository) (host : Host) (expression : String) (b : Body) :
    Except (Raised RepositoryError) String × Repository :=
  match repo.accept expression b with
  | .error err => (.error (.error err), repo)
  | .ok pattern =>
    match repo.work b with
    | (.error err, journal) => (.error err, { repo with engine := { repo.engine with journal } })
    | (.ok work, journal) =>
      let (answer, engine) := { repo.engine with journal }.schedule host pattern work
      (answer.mapError .panic, { repo with engine })

def info (repo : Repository) (id : String) : Option TaskInfo := do
  let pattern ← repo.engine.pattern? id
  some ⟨id, pattern.text, (repo.engine.work? id).bind (·.description)⟩

def all (repo : Repository) : List TaskInfo := repo.engine.taskIds.filterMap repo.info

def update (repo : Repository) (host : Host) (id expression : String) :
    Except (Raised RepositoryError) Unit × Repository :=
  match requireText id "id", requireText expression "expression" with
  | .error err, _ | .ok _, .error err => (.error (.error err), repo)
  | .ok _, .ok _ =>
    match parse expression with
    | .error err => (.error (.error err), repo)
    | .ok pattern =>
      match repo.engine.reschedule host id pattern with
      | (.error p, engine) => (.error (.panic p), { repo with engine })
      | (.ok true, engine) => (.ok (), { repo with engine })
      | (.ok false, engine) =>
        (.error (.error (.internal (.runner (.taskNotFound id)))), { repo with engine })

def remove (repo : Repository) (id : String) : Except RepositoryError Unit × Repository :=
  match requireText id "id" with
  | .error err => (.error err, repo)
  | .ok _ => (.ok (), { repo with engine := (repo.engine.deschedule id).2 })

/-- An engine that runs already counts as started. -/
def startEngine (host : Host) (e : Engine) : Except (Raised RepositoryError) Unit × Engine :=
  match Engine.start e host with
  | (.error (.error .alreadyStarted), e) => (.ok (), e)
  | (answer, e) => (Raised.mapError (.internal <| .runner ·) answer, e)

def stopEngine (e : Engine) : Except RepositoryError Unit × Engine :=
  match Engine.stop e with
  | (.error .notStarted, e) => (.ok (), e)
  | (answer, e) => (answer.mapError (.internal <| .runner ·), e)

def start (repo : Repository) (host : Host) :
    Except (Raised RepositoryError) Unit × Repository :=
  let (answer, lifecycle, engine) := repo.lifecycle.start (startEngine host) repo.engine
  (answer, { repo with lifecycle, engine })

def stop (repo : Repository) : Except RepositoryError Unit × Repository :=
  let (answer, lifecycle, engine) := repo.lifecycle.stop stopEngine repo.engine
  (answer, { repo with lifecycle, engine })

def restart (repo : Repository) (host : Host) :
    Except (Raised RepositoryError) Unit × Repository :=
  match repo.stop with
  | (.error err, repo) => (.error (.error err), repo)
  | (.ok (), repo) => repo.start host

def isStarted (repo : Repository) : Bool := repo.lifecycle.isRunning

def addListener (repo : Repository) (name : String) (l : CronListener) : Repository :=
  { repo with engine := { repo.engine with
      audience := (repo.engine.audience.introduce name l).add name } }

def removeListener (repo : Repository) (name : String) : Bool × Repository :=
  let (answer, audience) := repo.engine.audience.remove name
  (answer, { repo with engine := { repo.engine with audience } })

def settle (repo : Repository) (host : Host) : Repository :=
  { repo with engine := repo.engine.settle host }

end Repository

end CronTasks.Runner
