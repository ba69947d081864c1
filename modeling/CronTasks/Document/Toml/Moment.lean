import CronTasks.Text.Numeral
import CronTasks.Document.Node

namespace CronTasks.Document.Toml

open Text

/-- How far the parts of a time may go. -/
structure TimeBounds where
  hour : Nat
  offset : Nat → Nat → Bool

def strictBounds : TimeBounds := ⟨23, fun hour minute => hour ≤ 23 && minute ≤ 59⟩

/-- The bounds of times in strings under the reserved name: a day has an hour 24, and an
offset is at most a day. -/
def wideBounds : TimeBounds := ⟨24, fun hour minute => hour * 60 + minute ≤ 1440⟩

def two? (a b : Char) : Option Nat :=
  if a.isDigit && b.isDigit then some (Numeral.digit a * 10 + Numeral.digit b) else none

def daysOfMonth (year month : Nat) : Nat :=
  if month = 2 then
    if year % 4 = 0 ∧ (year % 100 ≠ 0 ∨ year % 400 = 0) then 29 else 28
  else if month = 4 ∨ month = 6 ∨ month = 9 ∨ month = 11 then 30
  else 31

def date : List Char → Option (List Char × List Char)
  | a :: b :: c :: d :: '-' :: e :: f :: '-' :: g :: h :: cs => do
    let year := (← two? a b) * 100 + (← two? c d)
    let month ← two? e f
    let day ← two? g h
    if 1 ≤ month ∧ month ≤ 12 ∧ 1 ≤ day ∧ day ≤ daysOfMonth year month then
      some ([a, b, c, d, '-', e, f, '-', g, h], cs)
    else none
  | _ => none

def significant (ds : List Char) : List Char :=
  ((ds.take 9).reverse.dropWhile (· == '0')).reverse

def secondFraction (cs : List Char) : Option (List Char × List Char) :=
  match cs with
  | '.' :: cs =>
    let (ds, rest) := cs.span Char.isDigit
    if ds.isEmpty then none
    else some (if (significant ds).isEmpty then [] else '.' :: significant ds, rest)
  | cs => some ([], cs)

def time (bounds : TimeBounds) : List Char → Option (List Char × List Char)
  | a :: b :: ':' :: c :: d :: ':' :: e :: f :: cs => do
    if (← two? a b) ≤ bounds.hour ∧ (← two? c d) ≤ 59 ∧ (← two? e f) ≤ 60 then
      let (fraction, rest) ← secondFraction cs
      some ([a, b, ':', c, d, ':', e, f] ++ fraction, rest)
    else none
  | _ => none

def offset? (bounds : TimeBounds) : List Char → Option (List Char)
  | [] => some []
  | ['Z'] | ['z'] => some ['Z']
  | [sign, a, b, ':', c, d] => do
    let hour ← two? a b
    let minute ← two? c d
    if (sign = '+' ∨ sign = '-') ∧ bounds.offset hour minute then
      some [if hour = 0 ∧ minute = 0 then '+' else sign, a, b, ':', c, d]
    else none
  | _ => none

def moment? (bounds : TimeBounds) (cs : List Char) : Option (List Char) :=
  match date cs with
  | none => do
    match ← time bounds cs with
    | (text, []) => some text
    | _ => none
  | some (day, []) => some day
  | some (day, separator :: cs) => do
    if separator = 'T' ∨ separator = 't' ∨ separator = ' ' then
      let (text, rest) ← time bounds cs
      some (day ++ 'T' :: text ++ (← offset? bounds rest))
    else none

def momentName : String := "$__toml_private_datetime"

def momentNode (text : List Char) : Node :=
  .table [(some momentName, .scalar (.ofText (String.ofList text)))]

mutual

/-- Whether the tables of a document whose first member has the reserved name can be taken
for dates or times. -/
def momentsSound : Node → Bool
  | .scalar _ => true
  | .list items => itemsSound items
  | .table ((some name, n) :: ms) =>
    if name == momentName then n.text?.any fun s => (moment? wideBounds s.toList).isSome
    else momentsSound n && membersSound ms
  | .table ms => membersSound ms

def itemsSound : List Node → Bool
  | [] => true
  | n :: ns => momentsSound n && itemsSound ns

def membersSound : List (Option String × Node) → Bool
  | [] => true
  | (_, n) :: ms => momentsSound n && membersSound ms

end

def isMoment : Node → Bool
  | .table ((some name, _) :: _) => name == momentName
  | _ => false

end CronTasks.Document.Toml
