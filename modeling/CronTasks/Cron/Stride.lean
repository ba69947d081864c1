namespace CronTasks.Cron

inductive Field
  | second
  | minute
  | hour
  | dayOfMonth
  | month
  | dayOfWeek
  | year
  deriving DecidableEq

namespace Field

def first : Field → Nat
  | second | minute | hour => 0
  | dayOfMonth | month | dayOfWeek => 1
  | year => 1970

def last : Field → Nat
  | second | minute => 59
  | hour => 23
  | dayOfMonth => 31
  | month => 12
  | dayOfWeek => 7
  | year => 2100

def range (f : Field) : List Nat := List.range' f.first (f.last + 1 - f.first)

/-- Fields that may be written `?` for every value. -/
def admitsAny : Field → Bool
  | dayOfMonth | dayOfWeek => true
  | _ => false

def names : Field → List (String × Nat)
  | month =>
    [("jan", 1), ("january", 1), ("feb", 2), ("february", 2), ("mar", 3), ("march", 3),
     ("apr", 4), ("april", 4), ("may", 5), ("jun", 6), ("june", 6), ("jul", 7), ("july", 7),
     ("aug", 8), ("august", 8), ("sep", 9), ("september", 9), ("oct", 10), ("october", 10),
     ("nov", 11), ("november", 11), ("dec", 12), ("december", 12)]
  | dayOfWeek =>
    [("sun", 1), ("sunday", 1), ("mon", 2), ("monday", 2), ("tue", 3), ("tues", 3),
     ("tuesday", 3), ("wed", 4), ("wednesday", 4), ("thu", 5), ("thurs", 5),
     ("thursday", 5), ("fri", 6), ("friday", 6), ("sat", 7), ("saturday", 7)]
  | _ => []

def named? (f : Field) (name : List Char) : Option Nat :=
  f.names.lookup (String.ofList (name.map Char.toLower))

end Field

/-- The numbers `first`, `first + step`, … up to `last`. -/
structure Stride where
  first : Nat
  last : Nat
  step : Nat
  deriving DecidableEq

def Stride.selects (s : Stride) (n : Nat) : Bool :=
  s.first ≤ n && n ≤ s.last && (n - s.first) % s.step == 0

def Field.values (f : Field) (ss : List Stride) : List Nat :=
  f.range.filter fun n => ss.any (·.selects n)

theorem Field.mem_range {f : Field} {n : Nat} : n ∈ f.range ↔ f.first ≤ n ∧ n ≤ f.last := by
  cases f <;> simp only [Field.range, Field.first, Field.last, List.mem_range'_1] <;> omega

theorem Field.mem_values {f : Field} {ss : List Stride} {n : Nat} :
    n ∈ f.values ss ↔ (f.first ≤ n ∧ n ≤ f.last) ∧ ∃ s ∈ ss, s.selects n := by
  simp [Field.values, Field.mem_range]

end CronTasks.Cron
