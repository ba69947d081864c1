import CronTasks.Table
import CronTasks.Error
import CronTasks.Journal

namespace CronTasks

open Text

/-- What a constructor does: it comes to an outcome, or it asks the factory at hand, if there is one,
for the job of a key, and goes on by what it hears. -/
inductive Construction
  | done (o : Outcome)
  | ask (key : JobKey) (next : Option (Except (Raised RepositoryError) Unit) → Construction)

namespace Construction

/-- Runs a constructor with a factory at hand. It never ends if it is kept waiting for ever. -/
def run {σ : Type} (ask : JobKey → σ → Option (Except (Raised RepositoryError) Unit) × σ) :
    Construction → σ → Option Outcome × σ
  | done o, s => (some o, s)
  | .ask key next, s =>
    match ask key s with
    | (none, s) => (none, s)
    | (some answer, s) => (next (some answer)).run ask s

def alone : Construction → Outcome
  | done o => o
  | ask _ next => (next none).alone

end Construction

/-- A registered type. A constructor may behave differently each time it is called, and a
method with each run on its instance. -/
structure TypeEntry where
  /-- The type that the instances really are of. -/
  receiver : String
  construct : Nat → Construction
  methods : Table String (Nat → Outcome)

structure Instance where
  type : String
  number : Nat
  receiver : String
  deriving DecidableEq

structure Method where
  type : String
  name : String
  receiver : String
  behavior : Nat → Outcome

structure BoundMethod where
  target : Instance
  method : Method

namespace Method

def call (m : Method) (i : Instance) (journal : Journal) : Outcome × Journal :=
  if i.receiver = m.receiver then
    let run := journal.runs i.type i.number + 1
    (m.behavior run, journal ++ [.called m.type m.name i.number run])
  else (.failure (.plain ("receiver is not a " ++ m.receiver)), journal)

def shown (m : Method) : String :=
  shownRecord "MethodHandle" [("declaring_type", quoted m.type), ("name", quoted m.name)] .partly

end Method

namespace BoundMethod

def call (b : BoundMethod) (journal : Journal) : Outcome × Journal :=
  b.method.call b.target journal

def shown (b : BoundMethod) : String :=
  shownRecord "BoundMethod"
    [("declaring_type", quoted b.method.type), ("method", quoted b.method.name)] .partly

end BoundMethod

abbrev Registry := Table String TypeEntry

namespace Registry

def hasType (r : Registry) (type : String) : Bool := r.contains type

def hasMethod (r : Registry) (type method : String) : Bool :=
  (r.get? type).any (·.methods.contains method)

def typeNames (r : Registry) : List String := r.keys.mergeSort

def method (r : Registry) (type name : String) : Except ResolveError Method :=
  match r.get? type with
  | none => .error (.unknownType type)
  | some entry =>
    match entry.methods.get? name with
    | none => .error (.unknownMethod type name)
    | some behavior => .ok ⟨type, name, entry.receiver, behavior⟩

def next (r : Registry) (type : String) (journal : Journal) :
    Except ResolveError (Instance × Construction) :=
  match r.get? type with
  | none => .error (.unknownType type)
  | some entry =>
    let number := journal.counter (Journal.buildName type) + 1
    .ok (⟨type, number, entry.receiver⟩, entry.construct number)

def built {α : Type} (type : String) (a : α) : Outcome → Except (Raised ResolveError) α
  | .success => .ok a
  | .failure e => .error (.error (.instantiation type e))
  | .panic p => .error (.panic p)

def instantiate (r : Registry) (type : String) (journal : Journal) :
    Except (Raised ResolveError) Instance × Journal :=
  match r.next type journal with
  | .error e => (.error (.error e), journal)
  | .ok (i, c) => (built type i c.alone, journal ++ [.built type i.number])

/-- A method on the instance to build next. It is looked up first, so that a wrong name builds
nothing. -/
def prepare (r : Registry) (type name : String) (journal : Journal) :
    Except ResolveError (BoundMethod × Construction) := do
  let m ← r.method type name
  let (i, c) ← r.next type journal
  return (⟨i, m⟩, c)

def resolve (r : Registry) (type name : String) (journal : Journal) :
    Except (Raised ResolveError) BoundMethod × Journal :=
  match r.prepare type name journal with
  | .error e => (.error (.error e), journal)
  | .ok (b, c) => (built type b c.alone, journal ++ [.built type b.target.number])

def shown (r : Registry) : String :=
  shownRecord "MethodRegistry"
    [("types", "[" ++ String.intercalate ", " (r.typeNames.map quoted) ++ "]")] .wholly

end Registry

end CronTasks
