import CronTasks.Cron.Search
import CronTasks.Proofs.Calendar.Year
import Mathlib.Data.Int.Order.Basic
import Mathlib.Data.List.Pairwise

namespace CronTasks.Cron

open Calendar

variable {α β γ : Type}

theorem findSome?_filter (l : List α) (p : α → Bool) (f : α → Option β) :
    (l.filter p).findSome? f = l.findSome? fun a => if p a then f a else none := by
  induction l with
  | nil => rfl
  | cons a l ih => cases h : p a <;> simp [List.findSome?_cons, h, ih]

theorem findSome?_flatMap (l : List α) (g : α → List β) (f : β → Option γ) (h : α → Option γ)
    (hh : ∀ a ∈ l, h a = (g a).findSome? f) : l.findSome? h = (l.flatMap g).findSome? f := by
  induction l with
  | nil => rfl
  | cons a l ih =>
    rw [List.findSome?_cons, List.flatMap_cons, List.findSome?_append,
      hh a List.mem_cons_self, ih fun b hb => hh b (List.mem_cons_of_mem a hb)]
    cases (g a).findSome? f <;> rfl

theorem firstFrom_eq_findSome? (f : Nat → Option α) (n k : Nat) :
    firstFrom f n k = (List.range' k n).findSome? f := by
  induction n generalizing k with
  | zero => rfl
  | succ n ih =>
    rw [List.range'_succ, List.findSome?_cons, ← ih]
    rfl

/-- In an ascending list the answer belongs to the first candidate that has one. -/
theorem findSome?_eq_some_iff_of_pairwise (l : List Int) (hl : l.Pairwise (· < ·))
    (f : Int → Option α) (a : α) :
    l.findSome? f = some a ↔ ∃ w ∈ l, f w = some a ∧ ∀ v ∈ l, v < w → f v = none := by
  rw [List.findSome?_eq_some_iff]
  constructor
  · rintro ⟨l₁, w, l₂, rfl, hw, hn⟩
    refine ⟨w, by simp, hw, fun v hv hlt => ?_⟩
    obtain hv | hv := List.mem_append.mp hv
    · exact hn v hv
    · have hle : w ≤ v := by
        obtain rfl | hv := List.mem_cons.mp hv
        · exact le_refl _
        · exact le_of_lt ((List.pairwise_cons.mp (List.pairwise_append.mp hl).2.1).1 v hv)
      exact absurd hlt (not_lt.mpr hle)
  · rintro ⟨w, hw, ha, hn⟩
    obtain ⟨l₁, l₂, rfl⟩ := List.append_of_mem hw
    refine ⟨l₁, w, l₂, rfl, ha, fun v hv => hn v (by simp [hv]) ?_⟩
    exact (List.pairwise_append.mp hl).2.2 v hv w List.mem_cons_self

namespace Schedule

/-- What holds of every schedule that is read from a text: the numbers of each part of a time
of day ascend and are possible ones, and the years are known ones. -/
structure Ordered (s : Schedule) : Prop where
  hours_sorted : s.hours.Pairwise (· < ·)
  minutes_sorted : s.minutes.Pairwise (· < ·)
  seconds_sorted : s.seconds.Pairwise (· < ·)
  hours_lt : ∀ h ∈ s.hours, h < 24
  minutes_lt : ∀ m ∈ s.minutes, m < 60
  seconds_lt : ∀ k ∈ s.seconds, k < 60
  years_mem : ∀ y ∈ s.years, 1970 ≤ y ∧ y ≤ 2100

theorem pairwise_values (f : Field) (ss : List Stride) : (f.values ss).Pairwise (· < ·) :=
  List.Pairwise.filter _ List.pairwise_lt_range'

theorem ordered_of_readFields? (cs : List Char) (s : Schedule) (h : readFields? cs = some s) :
    s.Ordered := by
  simp only [readFields?, Option.bind_eq_bind, Option.bind_eq_some_iff] at h
  obtain ⟨seconds, _, minutes, _, hours, _, days, _, months, _, weekdays, _, h⟩ := h
  obtain ⟨years, rfl⟩ : ∃ years, s =
      { seconds := Field.second.values seconds.1
        minutes := Field.minute.values minutes.1
        hours := Field.hour.values hours.1
        daysOfMonth := Field.dayOfMonth.values days.1
        months := Field.month.values months.1
        daysOfWeek := Field.dayOfWeek.values weekdays.1
        years := Field.year.values years } := by
    split at h
    · exact ⟨_, (Option.some.inj h).symm⟩
    · obtain ⟨years, -, h⟩ := Option.bind_eq_some_iff.mp h
      exact ⟨years, (Option.some.inj h).symm⟩
  have hlast (f : Field) (ss : List Stride) (n : Nat) (hn : n ∈ f.values ss) :
      f.first ≤ n ∧ n ≤ f.last := (Field.mem_values.mp hn).1
  exact
    { hours_sorted := pairwise_values _ _
      minutes_sorted := pairwise_values _ _
      seconds_sorted := pairwise_values _ _
      hours_lt := fun h hh => Nat.lt_succ_of_le (hlast _ _ h hh).2
      minutes_lt := fun m hm => Nat.lt_succ_of_le (hlast _ _ m hm).2
      seconds_lt := fun k hk => Nat.lt_succ_of_le (hlast _ _ k hk).2
      years_mem := fun y hy => hlast _ _ y hy }

theorem ordered_of_read? (cs : List Char) (s : Schedule) (h : read? cs = some s) : s.Ordered := by
  unfold read? at h
  split at h
  · exact ordered_of_readFields? _ s h
  · exact ordered_of_readFields? _ s h

/-- The admitted seconds of a day, in the order in which they are tried. -/
def daySeconds (s : Schedule) : List Nat :=
  s.hours.flatMap fun h => s.minutes.flatMap fun m => s.seconds.map fun k =>
    h * 3600 + m * 60 + k

theorem Ordered.mem_daySeconds {s : Schedule} (hs : s.Ordered) (t : Nat) :
    t ∈ s.daySeconds ↔ t < 86400 ∧ s.admitsSecond t = true := by
  simp only [daySeconds, List.mem_flatMap, List.mem_map, admitsSecond, Bool.and_eq_true,
    List.contains_iff_mem]
  constructor
  · rintro ⟨h, hh, m, hm, k, hk, rfl⟩
    have h1 := hs.hours_lt h hh
    have h2 := hs.minutes_lt m hm
    have h3 := hs.seconds_lt k hk
    have hhour : (h * 3600 + m * 60 + k) / 3600 = h := by omega
    have hminute : (h * 3600 + m * 60 + k) / 60 % 60 = m := by omega
    have hsecond : (h * 3600 + m * 60 + k) % 60 = k := by omega
    rw [hhour, hminute, hsecond]
    exact ⟨by omega, ⟨hh, hm⟩, hk⟩
  · rintro ⟨-, ⟨hh, hm⟩, hk⟩
    exact ⟨_, hh, _, hm, _, hk, by omega⟩

theorem Ordered.pairwise_daySeconds {s : Schedule} (hs : s.Ordered) :
    s.daySeconds.Pairwise (· < ·) := by
  -- a later hour or minute outweighs all that follows it
  refine List.pairwise_flatMap.mpr ⟨fun h _ => List.pairwise_flatMap.mpr ⟨fun m _ => ?_, ?_⟩, ?_⟩
  · exact List.pairwise_map.mpr (hs.seconds_sorted.imp fun hlt => by omega)
  · apply hs.minutes_sorted.imp_of_mem
    intro m n _ _ hlt t ht u hu
    obtain ⟨k, hk, rfl⟩ := List.mem_map.mp ht
    obtain ⟨l, -, rfl⟩ := List.mem_map.mp hu
    have := hs.seconds_lt k hk
    omega
  · apply hs.hours_sorted.imp_of_mem
    intro g h _ _ hlt t ht u hu
    obtain ⟨m, hm, ht⟩ := List.mem_flatMap.mp ht
    obtain ⟨n, -, hu⟩ := List.mem_flatMap.mp hu
    obtain ⟨k, hk, rfl⟩ := List.mem_map.mp ht
    obtain ⟨l, -, rfl⟩ := List.mem_map.mp hu
    have := hs.seconds_lt k hk
    have := hs.minutes_lt m hm
    omega

theorem Ordered.firstSecond_eq_findSome? {s : Schedule} (hs : s.Ordered) (least : Nat)
    (f : Nat → Option α) :
    s.firstSecond least f = (s.daySeconds.filter (least ≤ ·)).findSome? f := by
  rw [findSome?_filter]
  apply findSome?_flatMap _ _ _ _
  intro h _
  split
  next hlt =>
    -- nothing of an hour that is over is left to be tried
    symm
    rw [List.findSome?_eq_none_iff]
    intro t ht
    obtain ⟨m, hm, ht⟩ := List.mem_flatMap.mp ht
    obtain ⟨k, hk, rfl⟩ := List.mem_map.mp ht
    have := hs.seconds_lt k hk
    have := hs.minutes_lt m hm
    simp only [decide_eq_true_eq, ite_eq_right_iff]
    omega
  next =>
    apply findSome?_flatMap _ _ _ _
    intro m _
    split
    next hlt =>
      symm
      rw [List.findSome?_eq_none_iff]
      intro t ht
      obtain ⟨k, hk, rfl⟩ := List.mem_map.mp ht
      have := hs.seconds_lt k hk
      simp only [decide_eq_true_eq, ite_eq_right_iff]
      omega
    next =>
      rw [List.findSome?_map]
      congr 1
      funext k
      by_cases hle : least ≤ h * 3600 + m * 60 + k
      · simp [hle, Nat.not_lt.mpr hle]
      · simp [hle, Nat.lt_of_not_le hle]

/-- The admitted wall times from a given one on, in the order in which they are tried. -/
def walls (s : Schedule) (wall : Int) : List Int :=
  let day := (wall / 86400).toNat
  let second := if wall < 0 then 0 else (wall % 86400).toNat
  (List.range' day (dayCount - day)).flatMap fun k : Nat =>
    if s.admitsDay k then
      (s.daySeconds.filter ((if k = day then second else 0) ≤ ·)).map fun t : Nat => (k * 86400 + t : Int)
    else []

theorem Ordered.firstMoment_eq_findSome? {s : Schedule} (hs : s.Ordered) (zone : Zone)
    (wall : Int) : s.firstMoment zone wall = (s.walls wall).findSome? zone.moment? := by
  simp only [firstMoment, walls, firstFrom_eq_findSome?]
  apply findSome?_flatMap _ _ _ _
  intro k _
  split
  · rw [hs.firstSecond_eq_findSome?, List.findSome?_map]
    rfl
  · rfl

theorem Ordered.day_of_admitsDay {s : Schedule} (hs : s.Ordered) (n : Int)
    (h : s.admitsDay n = true) : 0 ≤ n ∧ n < dayCount := by
  simp only [admitsDay, Bool.and_eq_true, List.contains_iff_mem] at h
  obtain ⟨h1, h2⟩ := hs.years_mem _ h.2
  have hlow := year_lt_of_neg n
  have hhigh := lt_year_of_le n
  simp only [dayCount]
  omega

theorem Ordered.mem_walls {s : Schedule} (hs : s.Ordered) (wall w : Int) :
    w ∈ s.walls wall ↔ wall ≤ w ∧ s.admits w = true := by
  simp only [walls, List.mem_flatMap, List.mem_range'_1, admits, Bool.and_eq_true]
  constructor
  · rintro ⟨k, hk, hw⟩
    split at hw
    next hday =>
      obtain ⟨t, ht, rfl⟩ := List.mem_map.mp hw
      obtain ⟨ht, hle⟩ := List.mem_filter.mp ht
      obtain ⟨hlt, hadm⟩ := (hs.mem_daySeconds t).mp ht
      have hd : ((k : Int) * 86400 + t) / 86400 = k := by omega
      have hm : (((k : Int) * 86400 + t) % 86400).toNat = t := by omega
      rw [hd, hm]
      refine ⟨?_, hday, hadm⟩
      simp only [decide_eq_true_eq] at hle
      -- seconds are left out on the first day only
      by_cases hk' : k = (wall / 86400).toNat
      · rw [if_pos hk'] at hle
        split at hle <;> omega
      · omega
    next => cases hw
  · rintro ⟨hle, hday, hadm⟩
    obtain ⟨h0, h1⟩ := hs.day_of_admitsDay _ hday
    refine ⟨(w / 86400).toNat, by omega, ?_⟩
    rw [if_pos (by rwa [Int.toNat_of_nonneg h0])]
    refine List.mem_map.mpr ⟨(w % 86400).toNat, List.mem_filter.mpr ⟨?_, ?_⟩, by omega⟩
    · exact (hs.mem_daySeconds _).mpr ⟨by omega, hadm⟩
    · simp only [decide_eq_true_eq]
      split
      · split <;> omega
      · exact Nat.zero_le _

theorem Ordered.pairwise_walls {s : Schedule} (hs : s.Ordered) (wall : Int) :
    (s.walls wall).Pairwise (· < ·) := by
  refine List.pairwise_flatMap.mpr ⟨fun k _ => ?_, ?_⟩
  · split
    · exact List.pairwise_map.mpr ((hs.pairwise_daySeconds.filter _).imp fun hlt => by omega)
    · exact List.Pairwise.nil
  · refine List.Pairwise.imp (fun {j k} hlt v hv w hw => ?_) List.pairwise_lt_range'
    split at hv
    · obtain ⟨t, ht, rfl⟩ := List.mem_map.mp hv
      have := ((hs.mem_daySeconds t).mp (List.mem_filter.mp ht).1).1
      split at hw
      · obtain ⟨u, -, rfl⟩ := List.mem_map.mp hw
        omega
      · cases hw
    · cases hv

/-- The search answers the moment of the first admitted wall time that a zone has one for. -/
theorem Ordered.firstMoment_eq_some_iff {s : Schedule} (hs : s.Ordered) (zone : Zone)
    (wall t : Int) : s.firstMoment zone wall = some t ↔
      ∃ w, (wall ≤ w ∧ s.admits w = true) ∧ zone.moment? w = some t ∧
        ∀ v, wall ≤ v → s.admits v = true → v < w → zone.moment? v = none := by
  rw [hs.firstMoment_eq_findSome?, findSome?_eq_some_iff_of_pairwise _ (hs.pairwise_walls wall)]
  simp only [hs.mem_walls, and_imp]

theorem Ordered.firstMoment_eq_none_iff {s : Schedule} (hs : s.Ordered) (zone : Zone)
    (wall : Int) : s.firstMoment zone wall = none ↔
      ∀ w, wall ≤ w → s.admits w = true → zone.moment? w = none := by
  rw [hs.firstMoment_eq_findSome?, List.findSome?_eq_none_iff]
  simp only [hs.mem_walls, and_imp]

end Schedule

end CronTasks.Cron
