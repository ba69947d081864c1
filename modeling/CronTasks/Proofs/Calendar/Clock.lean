import CronTasks.Calendar.Zone
import CronTasks.Proofs.Calendar.Year
import Mathlib.Data.List.Basic

namespace CronTasks.Calendar

namespace Zone

/-- Whether the clocks showed this time, or a later one, before. -/
def Repeats (z : Zone) (t : Int) : Prop := ∃ m < t, z.wallTime t ≤ z.wallTime m

theorem not_repeats_of_daylight_eq_none (z : Zone) (hz : z.daylight = none) (t : Int) :
    ¬ z.Repeats t := by
  rintro ⟨m, hm, hle⟩
  simp only [wallTime, offsetAt, hz] at hle
  omega

/-- Clocks repeat themselves where daylight saving has ended by less than the time that it put
them ahead. -/
theorem repeats_iff (z : Zone) (d : Daylight) (hz : z.daylight = some d)
    (hd : z.standard ≤ d.offset) (t : Int) :
    z.Repeats t ↔ z.inDaylight d t = false ∧
      ∃ m < t, t - m ≤ d.offset - z.standard ∧ z.inDaylight d m = true := by
  simp only [Repeats, wallTime, offsetAt, hz]
  constructor
  · rintro ⟨m, hm, hle⟩
    cases ht : z.inDaylight d t <;> cases hdm : z.inDaylight d m <;>
      simp only [ht, hdm, Bool.false_eq_true, ↓reduceIte] at hle
    · omega
    · exact ⟨rfl, m, hm, by omega, hdm⟩
    · omega
    · omega
  · rintro ⟨ht, m, hm, hle, hdm⟩
    refine ⟨m, hm, ?_⟩
    simp only [ht, hdm, Bool.false_eq_true, ↓reduceIte]
    omega

theorem wallTime_of_moment? (z : Zone) (wall t : Int) (h : z.moment? wall = some t) :
    z.wallTime t = wall := by
  simpa using List.find?_some h

theorem moment?_wallTime (z : Zone) (m : Int) : ∃ t ≤ m, z.moment? (z.wallTime m) = some t := by
  have hoff : z.offsetAt m ∈ z.offsets := by
    unfold offsetAt offsets
    cases z.daylight with
    | none => simp
    | some d => cases z.inDaylight d m <;> simp <;> omega
  have hm : z.wallTime m - z.offsetAt m = m := by
    simp [wallTime]
  have hsorted : z.offsets.Pairwise (· ≥ ·) := by
    unfold offsets
    cases z.daylight with
    | none => simp
    | some d => exact List.pairwise_pair.mpr (by omega)
  -- the offset that is found comes first, so that it is not less than that of the moment
  obtain ⟨t, ht⟩ : ∃ t, z.moment? (z.wallTime m) = some t := by
    apply Option.isSome_iff_exists.mp
    rw [moment?, List.find?_isSome]
    exact ⟨m, List.mem_map.mpr ⟨_, hoff, hm⟩, by simp⟩
  refine ⟨t, ?_, ht⟩
  obtain ⟨l₁, l₂, hl, hn⟩ := (List.find?_eq_some_iff_append.mp ht).2
  obtain ⟨k₁, k₂, hk, rfl, hk₂⟩ := List.map_eq_append_iff.mp hl
  obtain ⟨o, k₃, rfl, rfl, rfl⟩ := List.map_eq_cons_iff.mp hk₂
  rw [hk] at hoff hsorted
  obtain hmem | hmem := List.mem_append.mp hoff
  · have := hn _ (List.mem_map_of_mem hmem)
    simp [hm] at this
  · obtain ho | hmem := List.mem_cons.mp hmem
    · omega
    · have := (List.pairwise_cons.mp (List.pairwise_append.mp hsorted).2.1).1 _ hmem
      omega

/-- The moment that is found for a wall time is the first at which the clocks show it. -/
theorem moment?_eq_some_iff (z : Zone) (wall t : Int) : z.moment? wall = some t ↔
    z.wallTime t = wall ∧ ∀ n < t, z.wallTime n ≠ wall := by
  constructor
  · intro h
    refine ⟨z.wallTime_of_moment? wall t h, fun n hn he => ?_⟩
    obtain ⟨t', hle, ht'⟩ := z.moment?_wallTime n
    rw [he, h] at ht'
    obtain rfl := Option.some.inj ht'
    omega
  · rintro ⟨rfl, h⟩
    obtain ⟨t', hle, ht'⟩ := z.moment?_wallTime t
    have hge : ¬ t' < t := fun hlt => h t' hlt (z.wallTime_of_moment? _ t' ht')
    obtain rfl : t' = t := by omega
    exact ht'

end Zone

theorem sundayFrom_bounds (n : Int) : n ≤ sundayFrom n ∧ sundayFrom n ≤ n + 6 := by
  simp only [sundayFrom]
  omega

def Sunday.inEveryMonth : Sunday → Bool
  | .nth k => 1 ≤ k && k ≤ 4
  | .last => true

def Changeover.Regular (c : Changeover) : Prop :=
  (3 ≤ c.month ∧ c.month ≤ 11) ∧ (0 ≤ c.second ∧ c.second < 86400) ∧ c.sunday.inEveryMonth = true

instance (c : Changeover) : Decidable c.Regular := inferInstanceAs (Decidable (_ ∧ _))

theorem Changeover.Regular.day_bounds {c : Changeover} (h : c.Regular) (y : Int) :
    Date.dayNumber ⟨y, c.month, 1⟩ ≤ c.day y ∧ c.day y < Date.dayNumber ⟨y, c.month + 1, 1⟩ := by
  obtain ⟨⟨hlow, hhigh⟩, -, hsunday⟩ := h
  have hthis := dayNumber_month y c.month hlow
  have hnext := dayNumber_month y (c.month + 1) (by omega)
  unfold day
  cases hs : c.sunday with
  | nth k =>
    have hk : 1 ≤ k ∧ k ≤ 4 := by simpa [hs, Sunday.inEveryMonth] using hsunday
    have hfrom := sundayFrom_bounds (Date.dayNumber ⟨y, c.month, 1⟩)
    simp only
    omega
  | last =>
    have hfrom := sundayFrom_bounds (Date.dayNumber ⟨y, c.month + 1, 1⟩)
    simp only
    omega

theorem Changeover.Regular.moment_bounds {c : Changeover} (h : c.Regular) (y offset : Int)
    (ho : -86400 ≤ offset ∧ offset ≤ 86400) :
    (Date.dayNumber ⟨y, c.month, 1⟩ - 1) * 86400 ≤ c.moment y offset ∧
      c.moment y offset < (Date.dayNumber ⟨y, c.month + 1, 1⟩ + 1) * 86400 := by
  have hday := h.day_bounds y
  obtain ⟨-, hsecond, -⟩ := h
  unfold moment
  cases c.clock <;> simp only <;> omega

/-- Daylight saving that begins and ends in the course of a year, not in months that follow one
another, and puts the clocks ahead, with offsets of no more than a day. -/
def Daylight.Seasonal (d : Daylight) (standard : Int) : Prop :=
  d.starts.Regular ∧ d.ends.Regular ∧
    (d.starts.month + 2 ≤ d.ends.month ∨ d.ends.month + 2 ≤ d.starts.month) ∧
    -86400 ≤ standard ∧ standard < d.offset ∧ d.offset ≤ 86400

instance (d : Daylight) (standard : Int) : Decidable (d.Seasonal standard) :=
  inferInstanceAs (Decidable (_ ∧ _))

theorem Daylight.Seasonal.ahead {d : Daylight} {standard : Int} (h : d.Seasonal standard) :
    standard < d.offset :=
  h.2.2.2.2.1

namespace Zone

def yearStart (z : Zone) (y : Int) : Int := Date.dayNumber ⟨y, 1, 1⟩ * 86400 - z.standard

theorem year_eq_iff (z : Zone) (y t : Int) :
    (Date.ofDayNumber ((t + z.standard) / 86400)).year = y ↔
      z.yearStart y ≤ t ∧ t < z.yearStart (y + 1) := by
  have hle := le_year_iff y ((t + z.standard) / 86400)
  have hlt := le_year_iff (y + 1) ((t + z.standard) / 86400)
  simp only [yearStart]
  omega

section Seasonal

variable {z : Zone} {d : Daylight}

/-- Between the changeovers of a year, and between them and its ends, lies more time than the clocks
are put ahead. -/
theorem order_of_seasonal (h : d.Seasonal z.standard) (y : Int) :
    let starts := d.starts.moment y z.standard
    let ends := d.ends.moment y d.offset
    let ahead := d.offset - z.standard
    (z.yearStart y + ahead ≤ starts ∧ z.yearStart y + ahead ≤ ends) ∧
      (starts < z.yearStart (y + 1) ∧ ends < z.yearStart (y + 1)) ∧
      if d.starts.month < d.ends.month then starts + ahead ≤ ends else ends < starts := by
  intro starts ends ahead
  obtain ⟨hs, he, hmonths, hstandard, hlt, hoffset⟩ := h
  have hsb := hs.moment_bounds y z.standard ⟨hstandard, by omega⟩
  have heb := he.moment_bounds y d.offset ⟨by omega, hoffset⟩
  have hsm := hs.1
  have hem := he.1
  rw [dayNumber_month y d.starts.month hsm.1, dayNumber_month y (d.starts.month + 1) (by omega)] at hsb
  rw [dayNumber_month y d.ends.month hem.1, dayNumber_month y (d.ends.month + 1) (by omega)] at heb
  have hmarch := dayNumber_march y
  have hjanuary := dayNumber_january y
  simp only [yearStart, starts, ends, ahead]
  generalize Date.dayNumber ⟨y, 3, 1⟩ = march at *
  generalize Date.dayNumber ⟨y, 1, 1⟩ = first at *
  generalize Date.dayNumber ⟨y + 1, 1, 1⟩ = last at *
  generalize d.starts.moment y z.standard = s at *
  generalize d.ends.moment y d.offset = e at *
  push_cast at *
  exact ⟨⟨by omega, by omega⟩, ⟨by omega, by omega⟩, by split <;> omega⟩

theorem inDaylight_iff (h : d.Seasonal z.standard) (y t : Int)
    (hy : z.yearStart y ≤ t ∧ t < z.yearStart (y + 1)) : z.inDaylight d t = true ↔
      if d.starts.month < d.ends.month then
        d.starts.moment y z.standard ≤ t ∧ t < d.ends.moment y d.offset
      else t < d.ends.moment y d.offset ∨ d.starts.moment y z.standard ≤ t := by
  obtain ⟨-, -, horder⟩ := z.order_of_seasonal h y
  have hahead := h.ahead
  simp only [inDaylight, (z.year_eq_iff y t).mpr hy]
  by_cases hn : d.starts.month < d.ends.month
  · rw [if_pos hn] at horder ⊢
    rw [if_pos (by omega)]
    simp
  · rw [if_neg hn] at horder ⊢
    rw [if_neg (by omega)]
    simp

theorem inDaylight_of_ends (h : d.Seasonal z.standard) (y t : Int)
    (hlow : d.ends.moment y d.offset - (d.offset - z.standard) ≤ t)
    (hhigh : t < d.ends.moment y d.offset) : z.inDaylight d t = true := by
  obtain ⟨⟨-, h1⟩, ⟨-, h2⟩, horder⟩ := z.order_of_seasonal h y
  rw [inDaylight_iff h y t ⟨by omega, by omega⟩]
  by_cases hn : d.starts.month < d.ends.month
  · rw [if_pos hn] at horder ⊢
    exact ⟨by omega, hhigh⟩
  · rw [if_neg hn]
    exact .inl hhigh

theorem exists_ends (h : d.Seasonal z.standard) (m t : Int) (hlt : m < t)
    (hm : z.inDaylight d m = true) (ht : ¬ z.inDaylight d t = true) :
    ∃ y, m < d.ends.moment y d.offset ∧ d.ends.moment y d.offset ≤ t := by
  obtain ⟨y, hy⟩ : ∃ y, z.yearStart y ≤ m ∧ m < z.yearStart (y + 1) :=
    ⟨_, (z.year_eq_iff _ m).mp rfl⟩
  obtain ⟨-, ⟨-, h2⟩, -⟩ := z.order_of_seasonal h y
  rw [inDaylight_iff h y m hy] at hm
  by_cases hend : m < d.ends.moment y d.offset
  · refine ⟨y, hend, not_lt.mp fun hte => ht ?_⟩
    rw [inDaylight_iff h y t ⟨by omega, by omega⟩]
    split at hm
    · rw [if_pos ‹_›]
      exact ⟨by omega, hte⟩
    · rw [if_neg ‹_›]
      exact .inl hte
  · -- daylight saving that has begun late in a year ends in the next one
    obtain ⟨⟨-, h1'⟩, ⟨-, h2'⟩, -⟩ := z.order_of_seasonal h (y + 1)
    have hahead := h.ahead
    split at hm
    · exact absurd hm.2 hend
    next hn =>
      have hstart := hm.resolve_left hend
      refine ⟨y + 1, by omega, not_lt.mp fun hte => ht ?_⟩
      by_cases hyear : t < z.yearStart (y + 1)
      · rw [inDaylight_iff h y t ⟨by omega, hyear⟩, if_neg hn]
        exact .inr (by omega)
      · rw [inDaylight_iff h (y + 1) t ⟨by omega, by omega⟩, if_neg hn]
        exact .inl hte

theorem shown_of_repeats (hz : z.daylight = some d) (h : d.Seasonal z.standard) (t : Int)
    (hr : z.Repeats t) : ∃ n < t, z.wallTime n = z.wallTime t := by
  have hahead := h.ahead
  obtain ⟨hout, m, hm, hle, hin⟩ := (z.repeats_iff d hz hahead.le t).mp hr
  obtain ⟨y, hlow, hhigh⟩ := exists_ends h m t hm hin (by simp [hout])
  have hbefore := inDaylight_of_ends h y (t - (d.offset - z.standard)) (by omega) (by omega)
  refine ⟨t - (d.offset - z.standard), by omega, ?_⟩
  simp only [wallTime, offsetAt, hz, hbefore, hout, ↓reduceIte, Bool.false_eq_true]
  omega

end Seasonal

theorem seasonal_of_mem : ∀ z ∈ all, ∀ d ∈ z.daylight, d.Seasonal z.standard := by
  decide

/-- In the known zones clocks show again only what they have shown. -/
theorem repeats_iff_shown (z : Zone) (hz : z ∈ all) (t : Int) :
    z.Repeats t ↔ ∃ n < t, z.wallTime n = z.wallTime t := by
  refine ⟨fun hr => ?_, fun ⟨n, hn, he⟩ => ⟨n, hn, he.ge⟩⟩
  cases hd : z.daylight with
  | none => exact absurd hr (z.not_repeats_of_daylight_eq_none hd t)
  | some d => exact shown_of_repeats hd (seasonal_of_mem z hz d hd) t hr

end Zone

end CronTasks.Calendar
