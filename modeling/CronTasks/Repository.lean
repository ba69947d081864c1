import CronTasks.Runner.Repository
import CronTasks.Trigger.Repository

namespace CronTasks

open Calendar

inductive Repository
  | trigger (repo : Trigger.Repository)
  | runner (repo : Runner.Repository)

namespace Repository

def leaving {α ρ : Type} (engine : ρ → Repository) (x : α × ρ) : α × Repository :=
  (x.1, engine x.2)

def supports : Repository → Body → Bool
  | trigger _ => Trigger.Repository.supports
  | runner repo => repo.supports

/-- Schedules a body and answers the id of its task. Building what a method runs on may
panic, and so may any search for a fire time. -/
def register (repo : Repository) (host : Host) (expression : String) (b : Body) :
    Except (Raised RepositoryError) String × Repository :=
  match repo with
  | trigger repo => leaving trigger (repo.register host expression b)
  | runner repo => leaving runner (repo.register host expression b)

def info : Repository → String → Option TaskInfo
  | trigger repo => repo.info
  | runner repo => repo.info

def all : Repository → List TaskInfo
  | trigger repo => repo.all
  | runner repo => repo.all

def update (repo : Repository) (host : Host) (id expression : String) :
    Except (Raised RepositoryError) Unit × Repository :=
  match repo with
  | trigger repo => leaving trigger (repo.update host id expression)
  | runner repo => leaving runner (repo.update host id expression)

def remove (repo : Repository) (id : String) : Except RepositoryError Unit × Repository :=
  match repo with
  | trigger repo => leaving trigger (repo.remove id)
  | runner repo => leaving runner (repo.remove id)

def start (repo : Repository) (host : Host) :
    Except (Raised RepositoryError) Unit × Repository :=
  match repo with
  | trigger repo => leaving trigger (repo.start host)
  | runner repo => leaving runner (repo.start host)

def stop : Repository → Except RepositoryError Unit × Repository
  | trigger repo => leaving trigger repo.stop
  | runner repo => leaving runner repo.stop

def restart (repo : Repository) (host : Host) :
    Except (Raised RepositoryError) Unit × Repository :=
  match repo with
  | trigger repo => leaving trigger (repo.restart host)
  | runner repo => leaving runner (repo.restart host)

def isStarted : Repository → Bool
  | trigger repo => repo.isStarted
  | runner repo => repo.isStarted

def addListener (repo : Repository) (name : String) (l : CronListener) : Repository :=
  match repo with
  | trigger repo => trigger (repo.addListener name l)
  | runner repo => runner (repo.addListener name l)

def removeListener (repo : Repository) (name : String) : Bool × Repository :=
  match repo with
  | trigger repo => leaving trigger (repo.removeListener name)
  | runner repo => leaving runner (repo.removeListener name)

def settle (repo : Repository) (host : Host) : Repository :=
  match repo with
  | trigger repo => trigger (repo.settle host)
  | runner repo => runner (repo.settle host)

def journal : Repository → Journal
  | trigger repo => repo.engine.journal
  | runner repo => repo.engine.journal

end Repository

end CronTasks
