namespace CronTasks

/-- An error and, after its own message, the messages of its causes. -/
structure Failure where
  message : String
  causes : List String
  deriving DecidableEq

def Failure.plain (message : String) : Failure := ⟨message, []⟩

def Failure.chain (e : Failure) : String := String.intercalate ": " (e.message :: e.causes)

/-- What a panic carries. -/
inductive Payload
  | text (s : String)
  | other
  deriving DecidableEq

def Payload.overflow : Payload := .text "instant out of range"

def Payload.early : Payload := .text "system time before Unix epoch"

def Payload.crowded : Payload :=
  .text "a semaphore may not have more than MAX_PERMITS permits (2305843009213693951)"

def Payload.message : Payload → String
  | .text s => s
  | .other => "non-string panic payload"

inductive Outcome
  | success
  | failure (e : Failure)
  | panic (p : Payload)
  deriving DecidableEq

/-- A call that changes a state and comes to an outcome. -/
abbrev Act (σ : Type) := σ → Outcome × σ

namespace Act

variable {σ α : Type}

def andThen (first second : Act σ) : Act σ := fun s =>
  match first s with
  | (.panic p, s) => (.panic p, s)
  | (_, s) => second s

def each (act : α → Act σ) : List α → Act σ
  | [] => fun s => (.success, s)
  | a :: as => (act a).andThen (each act as)

/-- Holds back what becomes of an act. What it has changed stays changed. -/
def isolated (act : Act σ) : Act σ := fun s => (.success, (act s).2)

end Act

def Outcome.caught (subject : String) : Outcome → Except Failure Unit
  | .success => .ok ()
  | .failure e => .error e
  | .panic p => .error (.plain (subject ++ " panicked: " ++ p.message))

/-- An error, or a panic that nobody caught on the way. -/
inductive Raised (ε : Type)
  | error (e : ε)
  | panic (p : Payload)
  deriving DecidableEq

namespace Raised

def mapError {ε δ α : Type} (f : ε → δ) : Except (Raised ε) α → Except (Raised δ) α
  | .ok a => .ok a
  | .error (.error e) => .error (.error (f e))
  | .error (.panic p) => .error (.panic p)

end Raised

end CronTasks
