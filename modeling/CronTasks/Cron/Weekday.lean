import CronTasks.Cron.Stride
import CronTasks.Text.Numeral

namespace CronTasks.Cron.Weekday

open Text

def base? (step : Option Nat) (cs : List Char) : Option (Nat × Nat) :=
  match cs with
  | ['*'] => some (0, 6)
  | cs =>
    match cs.span (· ≠ '-') with
    | (low, _ :: high) => do
      some (← Numeral.read? Numeral.max32 low, ← Numeral.read? Numeral.max32 high)
    | (single, []) => do
      let n ← Numeral.read? Numeral.max32 single
      some (n, if step.isSome then max n 6 else n)

/-- The UNIX numbers that an item selects: `n`, `a-b` or `*`, and a step after a slash. -/
def stride? (cs : List Char) : Option Stride := do
  let (base, step) ←
    match cs.span (· ≠ '/') with
    | (base, _ :: step) => do
      let n ← Numeral.read? Numeral.max64 step
      if 0 < n then some (base, some n) else none
    | (base, []) => some (base, none)
  let (low, high) ← base? step base
  if low ≤ high ∧ high ≤ 7 then some ⟨low, high, step.getD 1⟩ else none

def ofUnix (n : Nat) : Nat := n % 7 + 1

def days (s : Stride) : List Nat :=
  (List.range' 1 7).filter fun d =>
    (List.range 8).any fun n => s.selects n && ofUnix n == d

def renumberItem (cs : List Char) : Except (List Char) (List Char) :=
  if cs.any Char.isAlpha then .ok cs
  else
    match stride? cs with
    | some s => .ok ([','].intercalate ((days s).map (Nat.toDigits 10)))
    | none => .error cs

/-- Renumbers a field; the error is the first item that is at fault. -/
def renumber (cs : List Char) : Except (List Char) (List Char) :=
  match cs with
  | ['*'] | ['?'] => .ok cs
  | cs => do
    let items ← (cs.splitOn ',').mapM renumberItem
    .ok ([','].intercalate items)

end CronTasks.Cron.Weekday
