import CronTasks.Calendar.Date
import CronTasks.Text.Numeral

namespace CronTasks.Calendar

abbrev Instant := Int

namespace Instant

def millisPerDay : Int := 86400000

/-- The first instant of year -262143. -/
def earliest : Instant := Date.dayNumber ⟨-262143, 1, 1⟩ * millisPerDay

/-- The last millisecond of year 262142. -/
def latest : Instant := (Date.dayNumber ⟨262142, 12, 31⟩ + 1) * millisPerDay - 1

def InRange (t : Instant) : Prop := earliest ≤ t ∧ t ≤ latest

instance (t : Instant) : Decidable (InRange t) := inferInstanceAs (Decidable (_ ∧ _))

def plus? (t : Instant) (millis : Int) : Option Instant :=
  if InRange (t + millis) then some (t + millis) else none

def hasNextSecond (t : Instant) : Bool := t + 1000 ≤ latest

def yearText (y : Int) : String :=
  if 0 ≤ y ∧ y ≤ 9999 then Text.padded 4 y.toNat
  else if y < 0 then "-" ++ Text.padded 4 y.natAbs
  else "+" ++ Text.padded 4 y.toNat

def text (t : Instant) : String :=
  let date := Date.ofDayNumber (t / millisPerDay)
  let millis := (t % millisPerDay).toNat
  let two := Text.padded 2
  let fraction := if millis % 1000 = 0 then "" else "." ++ Text.padded 3 (millis % 1000)
  yearText date.year ++ "-" ++ two date.month ++ "-" ++ two date.day ++ "T" ++
    two (millis / 3600000) ++ ":" ++ two (millis / 60000 % 60) ++ ":" ++
    two (millis / 1000 % 60) ++ fraction ++ "Z"

end Instant

end CronTasks.Calendar
