namespace CronTasks.Text

inductive Piece
  | literal (c : Char)
  | reference (name : List Char)
  deriving DecidableEq

def closing? (cs : List Char) : Option (List Char × List Char) :=
  match cs.takeWhile (· ≠ '}'), cs.dropWhile (· ≠ '}') with
  | c :: name, _ :: rest => some (c :: name, rest)
  | _, _ => none

theorem length_dropWhile_le (p : Char → Bool) (cs : List Char) :
    (cs.dropWhile p).length ≤ cs.length :=
  (List.dropWhile_sublist p).length_le

theorem closing?_length {cs name rest : List Char} (h : closing? cs = some (name, rest)) :
    rest.length < cs.length := by
  unfold closing? at h
  split at h
  · rename_i hd
    have := length_dropWhile_le (· ≠ '}') cs
    simp only [Option.some.injEq, Prod.mk.injEq] at h
    rw [hd, List.length_cons, h.2] at this
    omega
  · cases h

/-- The pieces of a text. Where an opening is not followed by a name and its closing
brace, it stands for itself. -/
def pieces : List Char → List Piece
  | [] => []
  | '$' :: '{' :: cs =>
    match _ : closing? cs with
    | some (name, rest) => .reference name :: pieces rest
    | none => .literal '$' :: .literal '{' :: pieces cs
  | c :: cs => .literal c :: pieces cs
termination_by cs => cs.length
decreasing_by
  · have := closing?_length ‹_›
    simp only [List.length_cons]
    omega
  · simp only [List.length_cons]
    omega
  · simp

def Piece.expand (lookup : String → Option String) : Piece → List Char
  | .literal c => [c]
  | .reference name =>
    match lookup (String.ofList name) with
    | some value => value.toList
    | none => '$' :: '{' :: name ++ ['}']

def substitute (lookup : String → Option String) (s : String) : String :=
  String.ofList ((pieces s.toList).flatMap (Piece.expand lookup))

end CronTasks.Text
