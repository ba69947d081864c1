namespace CronTasks.Text

abbrev Reader (α : Type) := List Char → Option (α × List Char)

namespace Reader

variable {α : Type}

def char (c : Char) : Reader Unit
  | d :: cs => if d = c then some ((), cs) else none
  | [] => none

def literal (s : String) : Reader Unit := fun cs =>
  (s.toList.isPrefixOf? cs).map ((), ·)

def run (p : Char → Bool) : Reader (List Char) := fun cs =>
  match cs.takeWhile p with
  | [] => none
  | ds => some (ds, cs.dropWhile p)

/-- Reads as long as the reader succeeds and takes something. What it takes from may be more
than plain characters. -/
def many {σ : Type} (r : List σ → Option (α × List σ)) (cs : List σ) : List α × List σ :=
  match r cs with
  | none => ([], cs)
  | some (a, rest) =>
    if rest.length < cs.length then
      let (as, rest) := many r rest
      (a :: as, rest)
    else ([a], rest)
termination_by cs.length

/-- Reads one value or more with a character between them. A separator that no value
follows is left. -/
def separated (c : Char) (r : Reader α) : Reader (List α) := fun cs => do
  let (a, cs) ← r cs
  let (as, cs) := many (fun cs => do r (← char c cs).2) cs
  some (a :: as, cs)

def whole? (r : Reader α) (cs : List Char) : Option α :=
  match r cs with
  | some (a, []) => some a
  | _ => none

end Reader

end CronTasks.Text
