namespace CronTasks.Text

/-- The cells of a row after its first. `diagonal` is the cell of the row above that stands
before `above`, and `left` the cell made last. -/
def extendRow (c : Char) (diagonal left : Nat) : List Char → List Nat → List Nat
  | d :: ds, above :: row =>
    let cell := if c = d then diagonal else 1 + min (min diagonal above) left
    cell :: extendRow c above cell ds row
  | _, _ => []

def nextRow (ds : List Char) (row : List Nat) (c : Char) : List Nat :=
  match row with
  | [] => []
  | diagonal :: row => (diagonal + 1) :: extendRow c diagonal (diagonal + 1) ds row

def editDistance (cs ds : List Char) : Nat :=
  (cs.foldl (nextRow ds) (List.range (ds.length + 1))).getLastD 0

/-- Goes over a row from left to right and puts new cells in the place of old ones. `diagonal` is what
cell `j` held before. Every access is checked. -/
def sweep? (c : Char) (j diagonal : Nat) : List Char → List Nat → Option (List Nat)
  | [], row => some row
  | d :: ds, row =>
    match row[j]?, row[j + 1]? with
    | some left, some above =>
      let cell := if c = d then diagonal else 1 + min (min diagonal above) left
      sweep? c (j + 1) above ds (row.set (j + 1) cell)
    | _, _ => none

def sweeps? (ds : List Char) (i : Nat) : List Char → List Nat → Option (List Nat)
  | [], row => some row
  | c :: cs, row =>
    match row[0]? with
    | some diagonal =>
      match sweep? c 0 diagonal ds (row.set 0 (i + 1)) with
      | some row => sweeps? ds (i + 1) cs row
      | none => none
    | none => none

def editDistanceInPlace? (cs ds : List Char) : Option Nat :=
  match sweeps? ds 0 cs (List.range (ds.length + 1)) with
  | some row => row[ds.length]?
  | none => none

def slipLimit : Nat := 3

def slips (name : String) (candidates : List String) : List (Nat × String) :=
  (candidates.map fun s => (editDistance name.toList s.toList, s)).filter
    fun d => 1 ≤ d.1 && d.1 ≤ slipLimit

def nearer (x y : Nat × String) : Nat × String :=
  if y.1 < x.1 ∨ y.1 = x.1 ∧ y.2 < x.2 then y else x

/-- The candidate that was most likely meant. -/
def closest? (name : String) (candidates : List String) : Option String :=
  match slips name candidates with
  | [] => none
  | d :: ds => some (ds.foldl nearer d).2

end CronTasks.Text
