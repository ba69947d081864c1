import CronTasks.Cron.Pattern
import CronTasks.Host
import CronTasks.Proofs.Calendar.Clock
import CronTasks.Proofs.Cron.Search
import Mathlib

namespace CronTasks

open Calendar

/-- Whether searches can start from the time of a call: from 1970 on, and before the last second. -/
def Host.searches (host : Host) : Bool := 0 ≤ host.clock && host.clock.hasNextSecond

theorem Host.now_eq_ok_iff (host : Host) (now : Instant) :
    host.now = .ok now ↔ 0 ≤ host.clock ∧ host.clock ≤ Instant.latest ∧ now = host.clock := by
  unfold Host.now
  split_ifs with hlow hhigh
  · simp [not_le.mpr hlow]
  · simp [not_le.mpr hhigh]
  · simp [not_lt.mp hlow, not_lt.mp hhigh, eq_comm]

theorem Host.searches_iff (host : Host) :
    host.searches = true ↔ host.now = .ok host.clock ∧ host.clock.hasNextSecond = true := by
  rw [host.now_eq_ok_iff, searches, Bool.and_eq_true, decide_eq_true_iff]
  simp only [Instant.hasNextSecond, decide_eq_true_iff]
  constructor
  · exact fun h => ⟨⟨h.1, by lia, trivial⟩, h.2⟩
  · exact fun h => ⟨h.1.1, h.2⟩

end CronTasks

namespace CronTasks.Cron

open Calendar

/-- The whole seconds of universal time that a schedule admits. -/
def Schedule.instants (s : Schedule) : Set Instant :=
  {t | ∃ wall : Int, s.admits wall = true ∧ t = wall * 1000}

/-- The whole seconds at which the clocks of a zone first show a time that a schedule admits. -/
def Schedule.fires (s : Schedule) (z : Zone) : Set Instant :=
  {t | ∃ m : Int, s.admits (z.wallTime m) = true ∧ (∀ n < m, z.wallTime n ≠ z.wallTime m) ∧
    t = m * 1000}

def Expression.instants (e : Expression) : Set Instant := e.schedule.instants

def Pattern.instants (p : Pattern) : Set Instant := {t | ∃ e ∈ p.alternatives, t ∈ e.instants}

def Expression.Accepted (e : Expression) : Prop :=
  ∃ text, Expression.parse text = .ok e ∨ Expression.parseUnix text = .ok e

def Pattern.Accepted (p : Pattern) : Prop := ∃ text, Pattern.parse text = .ok p

/-- The first of some instants, if there are any. -/
def IsFirst (S : Set Instant) : Option Instant → Prop
  | none => S = ∅
  | some t => IsLeast S t

def yearZero : Instant := Date.dayNumber ⟨0, 1, 1⟩ * Instant.millisPerDay

theorem yearZero_le_of_nonneg {t : Instant} (h : 0 ≤ t) : yearZero ≤ t + 1000 := by
  have hy : yearZero ≤ 0 := by decide
  lia

theorem IsFirst.eq_some_iff {S : Set Instant} {o : Option Instant} (h : IsFirst S o) (t : Instant) :
    o = some t ↔ IsLeast S t := by
  cases o with
  | none =>
    refine iff_of_false nofun fun ht => ?_
    have hmem := ht.1
    rw [h] at hmem
    exact hmem
  | some u => exact ⟨fun he => Option.some.inj he ▸ h, fun ht => congrArg some (h.unique ht)⟩

theorem IsFirst.eq_none_iff {S : Set Instant} {o : Option Instant} (h : IsFirst S o) :
    o = none ↔ S = ∅ := by
  cases o with
  | none => exact iff_of_true rfl h
  | some t => exact iff_of_false nofun fun hs => Set.notMem_empty t (hs ▸ h.1)

theorem isFirst_min? {α : Type} (as : List α) (S : α → Set Instant) (f : α → Option Instant)
    (h : ∀ a ∈ as, IsFirst (S a) (f a)) :
    IsFirst {t | ∃ a ∈ as, t ∈ S a} (as.filterMap f).min? := by
  have hleast (a : α) (ha : a ∈ as) (t : Instant) (ht : t ∈ S a) : ∃ u ∈ as.filterMap f, u ≤ t := by
    have hf := h a ha
    cases hu : f a with
    | none =>
      rw [hu] at hf
      rw [hf] at ht
      cases ht
    | some u =>
      rw [hu] at hf
      exact ⟨u, List.mem_filterMap.mpr ⟨a, ha, hu⟩, hf.2 ht⟩
  cases hm : (as.filterMap f).min? with
  | none =>
    apply Set.eq_empty_iff_forall_notMem.mpr
    intro t
    rintro ⟨a, ha, ht⟩
    obtain ⟨u, hu, -⟩ := hleast a ha t ht
    rw [List.min?_eq_none_iff.mp hm] at hu
    cases hu
  | some m =>
    obtain ⟨hmem, hmin⟩ := List.min?_eq_some_iff.mp hm
    obtain ⟨a, ha, hfa⟩ := List.mem_filterMap.mp hmem
    have hf := h a ha
    rw [hfa] at hf
    refine ⟨⟨a, ha, hf.1⟩, ?_⟩
    rintro t ⟨b, hb, ht⟩
    obtain ⟨u, hu, hle⟩ := hleast b hb t ht
    exact (hmin u hu).trans hle

theorem utc_wallTime (t : Int) : Zone.utc.wallTime t = t := by
  simp [Zone.wallTime, Zone.offsetAt, Zone.utc, Zone.fixed]

theorem yearZero_le_iff (after : Instant) :
    yearZero ≤ after + 1000 ↔ 0 ≤ (Date.ofDayNumber ((after / 1000 + 1) / 86400)).year := by
  have hz : yearZero = -719528 * 86400000 := by decide
  rw [year_nonneg_iff, hz]
  constructor <;> intro h <;> lia

namespace Schedule

/-- Where clocks do not show a time again, the search answers the first of the moments that are left. -/
theorem Ordered.isFirst_fires {s : Schedule} (hs : s.Ordered) (z : Zone) (hz : z ∈ Zone.all)
    (after : Instant) (hy : 0 ≤ (Date.ofDayNumber (z.wallTime (after / 1000 + 1) / 86400)).year)
    (hfirst : ∀ n < after / 1000 + 1, z.wallTime n ≠ z.wallTime (after / 1000 + 1)) :
    IsFirst (s.fires z ∩ Set.Ioi after) (s.search? z after) := by
  have hlater (m : Int) : after < m * 1000 ↔ after / 1000 + 1 ≤ m := by lia
  rw [search?, if_neg (not_lt.mpr hy)]
  generalize after / 1000 + 1 = start at hfirst hlater
  -- a moment whose time is shown for the first time shows a later one than all before it
  have hahead (m : Int) (hm : ∀ n < m, z.wallTime n ≠ z.wallTime m) (n : Int) (hn : n < m) :
      z.wallTime n < z.wallTime m := by
    by_contra hle
    obtain ⟨k, hk, he⟩ := (z.repeats_iff_shown hz m).mp ⟨n, hn, not_lt.mp hle⟩
    exact hm k hk he
  have hfrom (m : Int) (hm : ∀ n < m, z.wallTime n ≠ z.wallTime m) (hle : start ≤ m) :
      z.wallTime start ≤ z.wallTime m := by
    obtain rfl | hlt := hle.eq_or_lt
    · exact le_rfl
    · exact (hahead m hm start hlt).le
  cases hf : s.firstMoment z (z.wallTime start) with
  | none =>
    apply Set.eq_empty_iff_forall_notMem.mpr
    rintro _ ⟨⟨m, hadm, hm, rfl⟩, hlt⟩
    have hle := hfrom m hm ((hlater m).mp hlt)
    have hnone := (hs.firstMoment_eq_none_iff z _).mp hf _ hle hadm
    rw [(z.moment?_eq_some_iff _ m).mpr ⟨rfl, hm⟩] at hnone
    cases hnone
  | some t =>
    obtain ⟨w, ⟨hw, hadm⟩, hm, hn⟩ := (hs.firstMoment_eq_some_iff z _ t).mp hf
    obtain ⟨rfl, ht⟩ := (z.moment?_eq_some_iff w t).mp hm
    have hle : start ≤ t := by
      by_contra hlt
      exact absurd (hahead start hfirst t (not_le.mp hlt)) (not_lt.mpr hw)
    refine ⟨⟨⟨t, hadm, ht, rfl⟩, (hlater t).mpr hle⟩, ?_⟩
    rintro _ ⟨⟨m, hadm', hm', rfl⟩, hlt⟩
    by_contra hgt
    have hmt : m < t := by lia
    have hnone := hn _ (hfrom m hm' ((hlater m).mp hlt)) hadm' (hahead t ht m hmt)
    rw [(z.moment?_eq_some_iff _ m).mpr ⟨rfl, hm'⟩] at hnone
    cases hnone

theorem fires_utc (s : Schedule) : s.fires .utc = s.instants := by
  ext t
  constructor
  · rintro ⟨m, hadm, -, rfl⟩
    rw [utc_wallTime] at hadm
    exact ⟨m, hadm, rfl⟩
  · rintro ⟨m, hadm, rfl⟩
    refine ⟨m, by rwa [utc_wallTime], fun n hn => ?_, rfl⟩
    rw [utc_wallTime, utc_wallTime]
    exact ne_of_lt hn

/-- In universal time the search answers the first admitted second that begins later. -/
theorem Ordered.isFirst_search? {s : Schedule} (hs : s.Ordered) (after : Instant)
    (h : yearZero ≤ after + 1000) : IsFirst (s.instants ∩ Set.Ioi after) (s.search? .utc after) := by
  have hy := (yearZero_le_iff after).mp h
  rw [← utc_wallTime (after / 1000 + 1)] at hy
  rw [← s.fires_utc]
  refine hs.isFirst_fires .utc (by decide) after hy fun n hn => ?_
  rw [utc_wallTime, utc_wallTime]
  exact ne_of_lt hn

end Schedule

/-- What the search finds where it does not panic. -/
def Expression.search? (e : Expression) (after : Instant) (zone : Option Zone) : Option Instant :=
  e.schedule.search? (zone.getD .utc) after

theorem Expression.next?_eq (e : Expression) (after : Instant) (zone : Option Zone) :
    e.next? after zone = if after.hasNextSecond then .ok (e.search? after zone) else .error .overflow :=
  rfl

theorem Expression.next?_eq_ok_iff (e : Expression) (after : Instant) (zone : Option Zone)
    (o : Option Instant) :
    e.next? after zone = .ok o ↔ after.hasNextSecond = true ∧ e.search? after zone = o := by
  rw [next?_eq]
  split
  next h => simp [h]
  next h => simp [h]

theorem Expression.search?_of_next? {x : Expression} {now : Instant} {zone : Option Zone}
    {o : Option Instant} (h : x.next? now zone = .ok o) : x.search? now zone = o :=
  ((x.next?_eq_ok_iff now zone o).mp h).2

theorem Expression.next?_now_eq_ok_iff (e : Expression) (host : Host) (zone : Option Zone)
    (o : Option Instant) : (∃ now, host.now = .ok now ∧ e.next? now zone = .ok o) ↔
      host.searches = true ∧ e.search? host.clock zone = o := by
  simp only [host.searches_iff, e.next?_eq_ok_iff]
  constructor
  · rintro ⟨now, hn, h, ho⟩
    obtain ⟨-, -, rfl⟩ := (host.now_eq_ok_iff now).mp hn
    exact ⟨⟨hn, h⟩, ho⟩
  · rintro ⟨⟨hn, h⟩, ho⟩
    exact ⟨_, hn, h, ho⟩

def Pattern.search? (p : Pattern) (after : Instant) (zone : Option Zone) : Option Instant :=
  (p.alternatives.filterMap (·.search? after zone)).min?

theorem Pattern.next?_of_hasNextSecond (p : Pattern) (after : Instant) (zone : Option Zone)
    (h : after.hasNextSecond = true) : p.next? after zone = .ok (p.search? after zone) := by
  have hok : (fun e : Expression => e.next? after zone) = fun e => pure (e.search? after zone) := by
    funext e
    rw [e.next?_eq, if_pos h]
    rfl
  simp only [next?, hok, List.mapM_pure, pure_bind, List.filterMap_map, Function.id_comp]
  rfl

theorem Pattern.next?_of_not_hasNextSecond (p : Pattern) (hp : p.alternatives ≠ [])
    (after : Instant) (zone : Option Zone) (h : after.hasNextSecond = false) :
    p.next? after zone = .error .overflow := by
  obtain ⟨e, es, he⟩ := List.exists_cons_of_ne_nil hp
  have hpanic : e.next? after zone = .error .overflow := by rw [e.next?_eq, if_neg (by simp [h])]
  simp [next?, he, hpanic, bind, Except.bind]

theorem Pattern.next?_eq (p : Pattern) (hp : p.alternatives ≠ []) (after : Instant)
    (zone : Option Zone) :
    p.next? after zone = if after.hasNextSecond then .ok (p.search? after zone) else .error .overflow := by
  split
  next h => exact p.next?_of_hasNextSecond after zone h
  next h => exact p.next?_of_not_hasNextSecond hp after zone (Bool.eq_false_iff.mpr h)

theorem Expression.isFirst_search? (e : Expression) (he : e.schedule.Ordered) (after : Instant)
    (h : yearZero ≤ after + 1000) : IsFirst (e.instants ∩ Set.Ioi after) (e.search? after none) :=
  Schedule.Ordered.isFirst_search? he after h

theorem Expression.yearZero_le_of_search? (e : Expression) (after t : Instant)
    (h : e.search? after none = some t) : yearZero ≤ after + 1000 := by
  by_contra hlt
  have hy := mt (yearZero_le_iff after).mpr hlt
  simp [search?, Schedule.search?, utc_wallTime, not_le.mp hy] at h

theorem Expression.isLeast_of_search? (e : Expression) (he : e.schedule.Ordered) (after t : Instant)
    (h : e.search? after none = some t) : IsLeast (e.instants ∩ Set.Ioi after) t :=
  ((e.isFirst_search? he after (e.yearZero_le_of_search? after t h)).eq_some_iff t).mp h

theorem Expression.search?_eq_none_iff (e : Expression) (he : e.schedule.Ordered) (after : Instant)
    (h : yearZero ≤ after + 1000) : e.search? after none = none ↔ ∀ t ∈ e.instants, t ≤ after := by
  rw [(e.isFirst_search? he after h).eq_none_iff, Set.eq_empty_iff_forall_notMem]
  simp only [Set.mem_inter_iff, Set.mem_Ioi, not_and, not_lt]

theorem Pattern.isFirst_search? (p : Pattern) (hp : ∀ e ∈ p.alternatives, e.schedule.Ordered)
    (after : Instant) (h : yearZero ≤ after + 1000) :
    IsFirst (p.instants ∩ Set.Ioi after) (p.search? after none) := by
  have hs : p.instants ∩ Set.Ioi after =
      {t | ∃ e ∈ p.alternatives, t ∈ e.instants ∩ Set.Ioi after} := by
    ext t
    constructor
    · rintro ⟨⟨e, he, ht⟩, hlt⟩
      exact ⟨e, he, ht, hlt⟩
    · rintro ⟨e, he, ht, hlt⟩
      exact ⟨⟨e, he, ht⟩, hlt⟩
  rw [hs]
  exact isFirst_min? _ _ _ fun e he => e.isFirst_search? (hp e he) after h

theorem exists_ok_of_any {ε α : Type} {r : Except ε α} {p : α → Prop} [DecidablePred p]
    (h : r.toOption.any (p ·) = true) : ∃ a, r = .ok a ∧ p a := by
  cases r with
  | error err => cases h
  | ok a => exact ⟨a, rfl, of_decide_eq_true h⟩

/-- The expression of every second, which fires a second after it is asked. -/
theorem parse_every_second : ∃ x, Expression.parse "* * * * * *" = .ok x ∧
    x.next? 1893456000000 none = .ok (some 1893456001000) :=
  exists_ok_of_any (by decide +kernel)

theorem ordered_of_parse (text : String) (e : Expression) (h : Expression.parse text = .ok e) :
    e.schedule.Ordered := by
  unfold Expression.parse Expression.schedule? at h
  split at h
  · cases h
  · split at h
    next s hs =>
      cases h
      exact Schedule.ordered_of_read? _ s hs
    · cases h

theorem ordered_of_parseUnix (text : String) (e : Expression)
    (h : Expression.parseUnix text = .ok e) : e.schedule.Ordered := by
  unfold Expression.parseUnix Expression.unixSchedule? at h
  split at h
  · split at h
    · cases h
    · split at h
      next s hs =>
        cases h
        exact Schedule.ordered_of_read? _ s hs
      · cases h
  · exact ordered_of_parse text e h

theorem Expression.Accepted.ordered {e : Expression} (h : e.Accepted) : e.schedule.Ordered := by
  obtain ⟨text, h | h⟩ := h
  · exact ordered_of_parse text e h
  · exact ordered_of_parseUnix text e h

theorem mem_of_mapM_eq_ok {α β ε : Type} (f : α → Except ε β) (as : List α) (bs : List β)
    (h : as.mapM f = .ok bs) (b : β) (hb : b ∈ bs) : ∃ a ∈ as, f a = .ok b := by
  induction as generalizing bs with
  | nil =>
    cases h
    cases hb
  | cons a as ih =>
    rw [List.mapM_cons] at h
    cases hf : f a with
    | error err =>
      rw [hf] at h
      cases h
    | ok c =>
      cases hm : as.mapM f with
      | error err =>
        rw [hf, hm] at h
        cases h
      | ok cs =>
        rw [hf, hm] at h
        cases h
        obtain rfl | hb := List.mem_cons.mp hb
        · exact ⟨a, List.mem_cons_self, hf⟩
        · obtain ⟨a', ha', hfa⟩ := ih cs hm hb
          exact ⟨a', List.mem_cons_of_mem a ha', hfa⟩

theorem Pattern.Accepted.ne_nil {p : Pattern} (h : p.Accepted) : p.alternatives ≠ [] := by
  obtain ⟨text, h⟩ := h
  unfold Pattern.parse at h
  split at h
  next alternatives ha =>
    cases h
    unfold Pattern.parseAlternatives at ha
    split at ha
    · cases ha
    · obtain ⟨cs, css, hs⟩ := List.exists_cons_of_ne_nil (List.splitOn_ne_nil '|' text.toList)
      rw [hs, List.mapM_cons] at ha
      rintro rfl
      cases hc : Pattern.parseAlternative cs <;> cases hcs : css.mapM Pattern.parseAlternative <;>
        simp [hc, hcs, bind, Except.bind, pure, Except.pure] at ha
  · cases h

theorem Pattern.Accepted.ordered {p : Pattern} (h : p.Accepted) :
    ∀ e ∈ p.alternatives, e.schedule.Ordered := by
  obtain ⟨text, h⟩ := h
  intro e he
  unfold Pattern.parse at h
  split at h
  next alternatives ha =>
    cases h
    unfold Pattern.parseAlternatives at ha
    split at ha
    · cases ha
    · obtain ⟨cs, -, hcs⟩ := mem_of_mapM_eq_ok _ _ _ ha e he
      unfold Pattern.parseAlternative at hcs
      split at hcs
      · cases hcs
      · cases hu : Expression.parseUnix (String.ofList cs) with
        | error err =>
          rw [hu] at hcs
          cases hcs
        | ok x =>
          rw [hu] at hcs
          cases hcs
          exact ordered_of_parseUnix _ e hu
  · cases h

end CronTasks.Cron
