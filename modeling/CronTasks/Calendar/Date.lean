namespace CronTasks.Calendar

structure Date where
  year : Int
  month : Nat
  day : Nat
  deriving DecidableEq

/-- Days from the first of March of year 0 to day 0. -/
def epochShift : Int := 719468

def daysPerEra : Int := 146097

def Date.ofDayNumber (n : Int) : Date :=
  let era := (n + epochShift) / daysPerEra
  let dayOfEra := (n + epochShift) % daysPerEra
  let yearOfEra :=
    (dayOfEra - dayOfEra / 1460 + dayOfEra / 36524 - dayOfEra / 146096) / 365
  let dayOfYear := dayOfEra - (365 * yearOfEra + yearOfEra / 4 - yearOfEra / 100)
  let monthFromMarch := (5 * dayOfYear + 2) / 153
  let month := if monthFromMarch < 10 then monthFromMarch + 3 else monthFromMarch - 9
  { year := yearOfEra + era * 400 + (if month ≤ 2 then 1 else 0)
    month := month.toNat
    day := (dayOfYear - (153 * monthFromMarch + 2) / 5 + 1).toNat }

def Date.dayNumber (d : Date) : Int :=
  let year := if d.month ≤ 2 then d.year - 1 else d.year
  let yearOfEra := year % 400
  let monthFromMarch : Int := if d.month ≤ 2 then d.month + 9 else d.month - 3
  let dayOfYear := (153 * monthFromMarch + 2) / 5 + d.day - 1
  let dayOfEra := yearOfEra * 365 + yearOfEra / 4 - yearOfEra / 100 + dayOfYear
  year / 400 * daysPerEra + dayOfEra - epochShift

/-- The day of the week of a day number, from 1 for Sunday to 7 for Saturday. -/
def weekday (n : Int) : Nat := ((n + 4) % 7).toNat + 1

example : Date.ofDayNumber 0 = ⟨1970, 1, 1⟩ ∧ weekday 0 = 5 := by decide
example : Date.ofDayNumber 11016 = ⟨2000, 2, 29⟩ ∧ Date.dayNumber ⟨2000, 2, 29⟩ = 11016 := by
  decide
example : Date.ofDayNumber (-719528) = ⟨0, 1, 1⟩ := by decide

end CronTasks.Calendar
