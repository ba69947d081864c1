import CronTasks.Calendar.Instant
import CronTasks.Calendar.Zone
import CronTasks.Cron.Schedule
import CronTasks.Outcome

namespace CronTasks.Cron

open Calendar

def firstFrom {α : Type} (f : Nat → Option α) : Nat → Nat → Option α
  | 0, _ => none
  | n + 1, k =>
    match f k with
    | some a => some a
    | none => firstFrom f n (k + 1)

namespace Schedule

/-- The first answer among the admitted seconds of a day, from a second on. Hours and
minutes that end before it are passed over. -/
def firstSecond {α : Type} (s : Schedule) (least : Nat) (f : Nat → Option α) : Option α :=
  s.hours.findSome? fun h =>
    if h * 3600 + 3599 < least then none
    else s.minutes.findSome? fun m =>
      if h * 3600 + m * 60 + 59 < least then none
      else s.seconds.findSome? fun k =>
        if h * 3600 + m * 60 + k < least then none else f (h * 3600 + m * 60 + k)

def dayCount : Nat := 47847

def firstMoment (s : Schedule) (zone : Zone) (wall : Int) : Option Int :=
  let day := (wall / 86400).toNat
  let second := if wall < 0 then 0 else (wall % 86400).toNat
  firstFrom (fun k =>
    if s.admitsDay k then
      s.firstSecond (if k = day then second else 0) fun t => zone.moment? (k * 86400 + t)
    else none) (dayCount - day) day

/-- The first fire time from the second on that begins next after an instant; nothing is found from
a year before year 0. -/
def search? (s : Schedule) (zone : Zone) (after : Instant) : Option Instant :=
  let wall := zone.wallTime (after / 1000 + 1)
  if (Date.ofDayNumber (wall / 86400)).year < 0 then none
  else (s.firstMoment zone wall).map (· * 1000)

/-- The next fire time after an instant. The search begins a second later, and panics where that
cannot be represented. -/
def next? (s : Schedule) (zone : Zone) (after : Instant) : Except Payload (Option Instant) :=
  if after.hasNextSecond then .ok (s.search? zone after) else .error .overflow

end Schedule

end CronTasks.Cron
