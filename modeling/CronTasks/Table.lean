import CronTasks.Outcome

namespace CronTasks

abbrev Table (κ α : Type) := List (κ × α)

namespace Table

variable {κ α : Type}

/-- Visits the entries in their order, up to the first visit that panics: what the visits before it
give, and the entries that are left. -/
def pass {β : Type} (visit : α → Except Payload β) :
    Table κ α → Except Payload Unit × Table κ β × Table κ α
  | [] => (.ok (), [], [])
  | (k, a) :: t =>
    match visit a with
    | .error p => (.error p, [], (k, a) :: t)
    | .ok b =>
      let (answer, done, rest) := pass visit t
      (answer, (k, b) :: done, rest)

variable [BEq κ]

def get? (t : Table κ α) (k : κ) : Option α := t.lookup k

def contains (t : Table κ α) (k : κ) : Bool := t.any (·.1 == k)

def erase (t : Table κ α) (k : κ) : Table κ α := t.filter (·.1 != k)

/-- Replaces the value of a key where it stands, or adds an entry at the end. -/
def put (t : Table κ α) (k : κ) (a : α) : Table κ α :=
  if t.contains k then t.map fun e => if e.1 == k then (k, a) else e else t ++ [(k, a)]

def keys (t : Table κ α) : List κ := t.map (·.1)

end Table

end CronTasks
