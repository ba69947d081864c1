namespace CronTasks.Document

/-- What a scalar can be read as. Formats differ in the readings that they allow: a number
may or may not be a text, for instance. -/
structure Scalar where
  text : Option String
  count : Option Nat
  flag : Option Bool
  /-- Stands for the absence of a value. -/
  absent : Bool
  /-- Has the empty table as a reading. -/
  vacant : Bool
  deriving DecidableEq

namespace Scalar

def unreadable : Scalar := ⟨none, none, none, false, false⟩

def ofText (s : String) : Scalar := { unreadable with text := some s }

def ofCount (n : Nat) : Scalar := { unreadable with count := some n }

def ofFlag (b : Bool) : Scalar := { unreadable with flag := some b }

end Scalar

/-- A member's name is `none` where what is written is no text. -/
inductive Node
  | scalar (s : Scalar)
  | list (items : List Node)
  | table (members : List (Option String × Node))

inductive ListForm
  | refused
  /-- Fields may be missing at the end. -/
  | short
  /-- There may also be more items than fields. -/
  | lenient
  deriving DecidableEq

namespace Node

def text? : Node → Option String
  | scalar s => s.text
  | _ => none

def count? : Node → Option Nat
  | scalar s => s.count
  | _ => none

def flag? : Node → Option Bool
  | scalar s => s.flag
  | _ => none

def optionalText? : Node → Option (Option String)
  | scalar s => if s.absent then some none else s.text.map some
  | _ => none

def namedMembers? : Node → Option (List (String × Node))
  | table members => members.mapM fun m => m.1.map (·, m.2)
  | scalar s => if s.vacant then some [] else none
  | list _ => none

/-- The fields of a record, in a given order. A table may have other members, but no field
twice. -/
def fields? (form : ListForm) (names : List String) : Node → Option (List (Option Node))
  | list items =>
    match form with
    | .refused => none
    | .short => if items.length ≤ names.length then some (positional items) else none
    | .lenient => some (positional items)
  | node => do
    let members ← node.namedMembers?
    if names.all fun name => members.countP (·.1 == name) ≤ 1 then
      some (names.map fun name => members.lookup name)
    else none
where
  positional (items : List Node) : List (Option Node) :=
    (List.range names.length).map (items[·]?)

end Node

end CronTasks.Document
