import CronTasks.Calendar.Date
import Mathlib.Order.Monotone.Basic

namespace CronTasks.Calendar

theorem dayNumber_month (y : Int) (m : Nat) (hm : 3 ≤ m) :
    Date.dayNumber ⟨y, m, 1⟩ = Date.dayNumber ⟨y, 3, 1⟩ + (153 * (m - 3 : Int) + 2) / 5 := by
  have hmarch : ¬ m ≤ 2 := Nat.not_le.mpr hm
  simp only [Date.dayNumber, hmarch, ↓reduceIte, Nat.reduceLeDiff]
  omega

theorem dayNumber_january (y : Int) :
    Date.dayNumber ⟨y + 1, 1, 1⟩ = Date.dayNumber ⟨y, 3, 1⟩ + 306 := by
  simp only [Date.dayNumber, ↓reduceIte, Nat.reduceLeDiff, Int.add_sub_cancel]
  omega

theorem dayNumber_march_succ (y : Int) :
    Date.dayNumber ⟨y, 3, 1⟩ + 365 ≤ Date.dayNumber ⟨y + 1, 3, 1⟩ ∧
      Date.dayNumber ⟨y + 1, 3, 1⟩ ≤ Date.dayNumber ⟨y, 3, 1⟩ + 366 := by
  simp only [Date.dayNumber, daysPerEra, ↓reduceIte, Nat.reduceLeDiff]
  omega

theorem dayNumber_march (y : Int) :
    Date.dayNumber ⟨y, 1, 1⟩ + 59 ≤ Date.dayNumber ⟨y, 3, 1⟩ ∧
      Date.dayNumber ⟨y, 3, 1⟩ ≤ Date.dayNumber ⟨y, 1, 1⟩ + 60 := by
  have hjanuary := dayNumber_january (y - 1)
  have hmarch := dayNumber_march_succ (y - 1)
  rw [Int.sub_add_cancel] at hjanuary hmarch
  omega

theorem dayNumber_january_mono (y z : Int) (h : y ≤ z) :
    Date.dayNumber ⟨y, 1, 1⟩ ≤ Date.dayNumber ⟨z, 1, 1⟩ := by
  refine monotone_int_of_le_succ (f := fun y => Date.dayNumber ⟨y, 1, 1⟩) (fun y => ?_) h
  have hmarch := dayNumber_march y
  have hjanuary := dayNumber_january y
  omega

/-- The place of a day in its era: its century, its leap cycle, and the year in the cycle. The last
day of a cycle is a leap day. -/
theorem yearOfEra_cases (doe : Int) (h0 : 0 ≤ doe) (h1 : doe < 146097) :
    ∃ century cycle year day : Int,
      (doe - doe / 1460 + doe / 36524 - doe / 146096) / 365 = 100 * century + 4 * cycle + year ∧
        doe = 36524 * century + 1461 * cycle + 365 * year + day ∧
        (0 ≤ century ∧ century ≤ 3) ∧ (0 ≤ cycle ∧ cycle ≤ 24) ∧ (0 ≤ year ∧ year ≤ 3) ∧
        0 ≤ day ∧ day ≤ 365 := by
  obtain ⟨century, hcentury, hlow, hhigh⟩ : ∃ c : Int, (0 ≤ c ∧ c ≤ 3) ∧ 36524 * c ≤ doe ∧
      (doe < 36524 * c + 36524 ∨ c = 3 ∧ doe = 146096) :=
    ⟨min (doe / 36524) 3, by omega⟩
  obtain ⟨cycle, rest, hcycle, hrest, hdoe⟩ : ∃ k r : Int, (0 ≤ k ∧ k ≤ 24) ∧ (0 ≤ r ∧ r ≤ 1460) ∧
      doe = 36524 * century + 1461 * k + r :=
    ⟨(doe - 36524 * century) / 1461, (doe - 36524 * century) % 1461, by omega, by omega, by omega⟩
  obtain ⟨year, hyear, hle, hlt⟩ : ∃ y : Int, (0 ≤ y ∧ y ≤ 3) ∧ 365 * y ≤ rest ∧
      (rest < 365 * y + 365 ∨ y = 3) :=
    ⟨min (rest / 365) 3, by omega⟩
  -- what is taken off for leap days is one too much only in the last year of a cycle
  have hleap : doe / 1460 = 25 * century + cycle ∨
      doe / 1460 = 25 * century + cycle + 1 ∧ 1460 ≤ 24 * century + cycle + rest := by omega
  have hcommon : doe / 36524 - doe / 146096 = century := by omega
  exact ⟨century, cycle, year, rest - 365 * year, by omega, by omega, hcentury, hcycle, hyear,
    by omega, by omega⟩

/-- A year begins in the course of the one that is counted from March. -/
theorem year_ofDayNumber (n : Int) : ∃ y : Int, Date.dayNumber ⟨y, 3, 1⟩ ≤ n ∧
    n ≤ Date.dayNumber ⟨y, 3, 1⟩ + 365 ∧
      (Date.ofDayNumber n).year = if n < Date.dayNumber ⟨y, 3, 1⟩ + 306 then y else y + 1 := by
  obtain ⟨century, cycle, year, day, hyoe, hdoe, hcentury, hcycle, hyear, hday⟩ :=
    yearOfEra_cases ((n + 719468) % 146097) (by omega) (by omega)
  have hn := Int.emod_add_mul_ediv (n + 719468) 146097
  refine ⟨100 * century + 4 * cycle + year + (n + 719468) / 146097 * 400, ?_⟩
  simp only [Date.ofDayNumber, Date.dayNumber, epochShift, daysPerEra, hyoe, ↓reduceIte,
    Nat.reduceLeDiff]
  generalize (n + 719468) / 146097 = era at *
  generalize (n + 719468) % 146097 = doe at *
  have hera : (100 * century + 4 * cycle + year + era * 400) / 400 = era := by omega
  have hyoe : (100 * century + 4 * cycle + year + era * 400) % 400 =
      100 * century + 4 * cycle + year := by omega
  have hleap : (100 * century + 4 * cycle + year) / 4 = 25 * century + cycle := by omega
  have hcommon : (100 * century + 4 * cycle + year) / 100 = century := by omega
  rw [hera, hyoe, hleap, hcommon]
  refine ⟨by omega, by omega, ?_⟩
  split_ifs <;> omega

theorem le_year_iff (y n : Int) :
    y ≤ (Date.ofDayNumber n).year ↔ Date.dayNumber ⟨y, 1, 1⟩ ≤ n := by
  obtain ⟨z, hlow, hhigh, hyear⟩ := year_ofDayNumber n
  have hfirst := dayNumber_march z
  have hjanuary := dayNumber_january z
  have hjanuary' := dayNumber_january (z + 1)
  have hmarch := dayNumber_march_succ z
  rw [hyear]
  split
  next hlt =>
    refine ⟨fun h => ?_, fun h => ?_⟩
    · have := dayNumber_january_mono y z h
      omega
    · by_contra hgt
      have := dayNumber_january_mono (z + 1) y (by omega)
      omega
  next hge =>
    refine ⟨fun h => ?_, fun h => ?_⟩
    · have := dayNumber_january_mono y (z + 1) h
      omega
    · by_contra hgt
      have := dayNumber_january_mono (z + 1 + 1) y (by omega)
      omega

theorem year_lt_of_neg (n : Int) (h : n < 0) : (Date.ofDayNumber n).year < 1970 := by
  have hfirst : Date.dayNumber ⟨1970, 1, 1⟩ = 0 := by decide
  have hyear := le_year_iff 1970 n
  omega

theorem lt_year_of_le (n : Int) (h : 47847 ≤ n) : 2100 < (Date.ofDayNumber n).year := by
  have hfirst : Date.dayNumber ⟨2101, 1, 1⟩ = 47847 := by decide
  exact (le_year_iff 2101 n).mpr (hfirst.trans_le h)

/-- Year 0 begins 719528 days before day 0. -/
theorem year_nonneg_iff (n : Int) : 0 ≤ (Date.ofDayNumber n).year ↔ -719528 ≤ n := by
  have hfirst : Date.dayNumber ⟨0, 1, 1⟩ = -719528 := by decide
  rw [le_year_iff, hfirst]

end CronTasks.Calendar
