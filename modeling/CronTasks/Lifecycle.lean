namespace CronTasks

inductive Lifecycle
  | stopped
  | running
  deriving DecidableEq

namespace Lifecycle

def display : Lifecycle → String
  | stopped => "stopped"
  | running => "running"

def shown : Lifecycle → String
  | stopped => "Stopped"
  | running => "Running"

def isRunning (s : Lifecycle) : Bool := s == running

variable {ε σ : Type}

def moveTo (goal : Lifecycle) (s : Lifecycle) (hook : σ → Except ε Unit × σ) (x : σ) :
    Except ε Unit × Lifecycle × σ :=
  if s = goal then (.ok (), s, x)
  else
    match hook x with
    | (.ok (), x) => (.ok (), goal, x)
    | (.error e, x) => (.error e, s, x)

/-- Runs `hook` unless running already. -/
def start (s : Lifecycle) (hook : σ → Except ε Unit × σ) (x : σ) :
    Except ε Unit × Lifecycle × σ :=
  moveTo running s hook x

def stop (s : Lifecycle) (hook : σ → Except ε Unit × σ) (x : σ) :
    Except ε Unit × Lifecycle × σ :=
  moveTo stopped s hook x

end Lifecycle

end CronTasks
