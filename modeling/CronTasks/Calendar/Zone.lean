import CronTasks.Calendar.Date

namespace CronTasks.Calendar

inductive Sunday
  | nth (k : Nat)
  | last
  deriving DecidableEq

inductive Clock
  | universal
  | wall
  deriving DecidableEq

structure Changeover where
  month : Nat
  sunday : Sunday
  second : Int
  clock : Clock
  deriving DecidableEq

structure Daylight where
  offset : Int
  starts : Changeover
  ends : Changeover
  deriving DecidableEq

structure Zone where
  name : String
  standard : Int
  daylight : Option Daylight
  deriving DecidableEq

def sundayFrom (n : Int) : Int := n + (8 - weekday n : Int) % 7

def Changeover.day (c : Changeover) (year : Int) : Int :=
  match c.sunday with
  | .nth k => sundayFrom (Date.dayNumber ⟨year, c.month, 1⟩) + 7 * (k - 1 : Int)
  | .last => sundayFrom (Date.dayNumber ⟨year, c.month + 1, 1⟩) - 7

/-- The moment of a changeover in a year, where `offset` holds until then. -/
def Changeover.moment (c : Changeover) (year offset : Int) : Int :=
  c.day year * 86400 + c.second -
    match c.clock with
    | .universal => 0
    | .wall => offset

namespace Zone

/-- Whether a changeover has put the daylight offset in force. Where the daylight part
begins before it ends within one year it lies between the two, else around the turn of
the year. -/
def inDaylight (z : Zone) (d : Daylight) (t : Int) : Bool :=
  let year := (Date.ofDayNumber ((t + z.standard) / 86400)).year
  let starts := d.starts.moment year z.standard
  let ends := d.ends.moment year d.offset
  if starts < ends then starts ≤ t && t < ends else t < ends || starts ≤ t

def offsetAt (z : Zone) (t : Int) : Int :=
  match z.daylight with
  | none => z.standard
  | some d => if z.inDaylight d t then d.offset else z.standard

def offsets (z : Zone) : List Int :=
  match z.daylight with
  | none => [z.standard]
  | some d => [max d.offset z.standard, min d.offset z.standard]

/-- What the clocks of a zone show at a moment of universal time. -/
def wallTime (z : Zone) (t : Int) : Int := t + z.offsetAt t

/-- The earliest moment at which the clocks of a zone show a wall time; none where they
skip it. -/
def moment? (z : Zone) (wall : Int) : Option Int :=
  (z.offsets.map (wall - ·)).find? fun t => z.wallTime t = wall

def fixed (name : String) (offset : Int) : Zone := ⟨name, offset, none⟩

def european (name : String) (standard : Int) : Zone :=
  ⟨name, standard, some
    { offset := standard + 3600
      starts := ⟨3, .last, 3600, .universal⟩
      ends := ⟨10, .last, 3600, .universal⟩ }⟩

def american (name : String) (standard : Int) : Zone :=
  ⟨name, standard, some
    { offset := standard + 3600
      starts := ⟨3, .nth 2, 7200, .wall⟩
      ends := ⟨11, .nth 1, 7200, .wall⟩ }⟩

def utc : Zone := fixed "UTC" 0

def lordHowe : Zone :=
  ⟨"Australia/Lord_Howe", 37800, some
    { offset := 39600
      starts := ⟨10, .nth 1, 7200, .wall⟩
      ends := ⟨4, .nth 1, 7200, .wall⟩ }⟩

def all : List Zone :=
  [utc, fixed "GMT" 0, fixed "Zulu" 0, fixed "Universal" 0, fixed "EST" (-18000),
   american "EST5EDT" (-18000), fixed "Etc/GMT+5" (-18000), fixed "Etc/GMT-14" 50400,
   european "Europe/Paris" 3600, european "Europe/Berlin" 3600, european "Europe/London" 0,
   european "Europe/Kyiv" 7200, european "Europe/Kiev" 7200, american "US/Pacific" (-28800),
   fixed "Asia/Calcutta" 19800, fixed "Asia/Kolkata" 19800, fixed "Asia/Tokyo" 32400,
   american "America/New_York" (-18000), fixed "America/Argentina/Buenos_Aires" (-10800),
   american "America/Port-au-Prince" (-18000), lordHowe]

def find? (name : String) : Option Zone := all.find? (·.name == name)

end Zone

end CronTasks.Calendar
