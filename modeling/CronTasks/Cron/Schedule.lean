import CronTasks.Calendar.Date
import CronTasks.Cron.Field

namespace CronTasks.Cron

open Calendar

structure Schedule where
  seconds : List Nat
  minutes : List Nat
  hours : List Nat
  daysOfMonth : List Nat
  months : List Nat
  daysOfWeek : List Nat
  years : List Nat
  deriving DecidableEq

namespace Schedule

/-- Six fields, and a seventh for the year, which may be left out. -/
def readFields? (cs : List Char) : Option Schedule := do
  let (seconds, cs) ← field .second cs
  let (minutes, cs) ← field .minute cs
  let (hours, cs) ← field .hour cs
  let (daysOfMonth, cs) ← field .dayOfMonth cs
  let (months, cs) ← field .month cs
  let (daysOfWeek, cs) ← field .dayOfWeek cs
  let years ← match cs with
    | [] => some [Span.every.plain .year]
    | cs => Text.Reader.whole? (field .year) cs
  some
    { seconds := Field.second.values seconds
      minutes := Field.minute.values minutes
      hours := Field.hour.values hours
      daysOfMonth := Field.dayOfMonth.values daysOfMonth
      months := Field.month.values months
      daysOfWeek := Field.dayOfWeek.values daysOfWeek
      years := Field.year.values years }

def shorthands : List (String × String) :=
  [("@yearly", "0 0 0 1 1 * *"), ("@monthly", "0 0 0 1 * * *"), ("@weekly", "0 0 0 * * 1 *"),
   ("@daily", "0 0 0 * * * *"), ("@hourly", "0 0 * * * * *")]

def read? (cs : List Char) : Option Schedule :=
  match shorthands.lookup (String.ofList cs) with
  | some fields => readFields? fields.toList
  | none => readFields? cs

def admitsDay (s : Schedule) (day : Int) : Bool :=
  let date := Date.ofDayNumber day
  s.months.contains date.month && s.daysOfMonth.contains date.day &&
    s.daysOfWeek.contains (weekday day) && s.years.contains date.year.toNat

def admitsSecond (s : Schedule) (second : Nat) : Bool :=
  s.hours.contains (second / 3600) && s.minutes.contains (second / 60 % 60) &&
    s.seconds.contains (second % 60)

/-- Whether a wall time is in the schedule, in seconds since the wall time of day 0. -/
def admits (s : Schedule) (wall : Int) : Bool :=
  s.admitsDay (wall / 86400) && s.admitsSecond (wall % 86400).toNat

end Schedule

end CronTasks.Cron
