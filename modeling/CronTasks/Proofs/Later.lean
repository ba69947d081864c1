import CronTasks.Cron.Pattern
import CronTasks.Proofs.Calendar.Clock
import CronTasks.Proofs.Cron.Instants
import CronTasks.Proofs.Runner.Run
import CronTasks.Trigger.Store

namespace CronTasks

open Calendar Cron

namespace Cron

variable {α : Type}

theorem Schedule.le_of_firstSecond (s : Schedule) (least : Nat) (f : Nat → Option α) (a : α)
    (h : s.firstSecond least f = some a) : ∃ t, least ≤ t ∧ f t = some a := by
  obtain ⟨hour, -, h⟩ := List.exists_of_findSome?_eq_some h
  split at h
  · cases h
  · obtain ⟨minute, -, h⟩ := List.exists_of_findSome?_eq_some h
    split at h
    · cases h
    · obtain ⟨second, -, h⟩ := List.exists_of_findSome?_eq_some h
      split at h
      · cases h
      next hle => exact ⟨_, Nat.not_lt.mp hle, h⟩

theorem Schedule.moment?_of_firstMoment (s : Schedule) (zone : Zone) (wall t : Int)
    (h : s.firstMoment zone wall = some t) : ∃ w, wall ≤ w ∧ zone.moment? w = some t := by
  rw [firstMoment, firstFrom_eq_findSome?] at h
  obtain ⟨k, hk, h⟩ := List.exists_of_findSome?_eq_some h
  have hday := (List.mem_range'_1.mp hk).1
  split at h
  · obtain ⟨second, hle, hm⟩ := s.le_of_firstSecond _ _ t h
    refine ⟨_, ?_, hm⟩
    split at hle
    · split at hle <;> omega
    · omega
  · cases h

theorem Expression.moment?_of_search? (x : Expression) (now r : Instant) (zone : Option Zone)
    (h : x.search? now zone = some r) : ∃ t, r = t * 1000 ∧
      (zone.getD .utc).wallTime (now / 1000 + 1) ≤ (zone.getD .utc).wallTime t ∧
      (zone.getD .utc).moment? ((zone.getD .utc).wallTime t) = some t := by
  simp only [Expression.search?, Schedule.search?] at h
  split at h
  · cases h
  · obtain ⟨t, ht, rfl⟩ := Option.map_eq_some_iff.mp h
    obtain ⟨w, hle, hm⟩ := x.schedule.moment?_of_firstMoment _ _ t ht
    obtain rfl := Zone.wallTime_of_moment? _ w t hm
    exact ⟨t, rfl, hle, hm⟩

/-- What is found lies ahead exactly if the clocks have not shown its time yet. -/
theorem Expression.lt_search?_iff (x : Expression) (now r : Instant) (zone : Option Zone)
    (h : x.search? now zone = some r) : now < r ↔
      ∀ m ≤ now / 1000, (zone.getD .utc).wallTime m ≠ (zone.getD .utc).wallTime (r / 1000) := by
  obtain ⟨t, rfl, -, hm⟩ := x.moment?_of_search? now r zone h
  have ht : t * 1000 / 1000 = t := by lia
  rw [ht]
  constructor
  · intro hlt m hle
    exact ((Zone.moment?_eq_some_iff _ _ t).mp hm).2 m (by lia)
  · intro hn
    by_contra hle
    exact hn t (by lia) rfl

theorem Expression.lt_of_search? (x : Expression) (now r : Instant) (zone : Option Zone)
    (hz : ¬ (zone.getD .utc).Repeats (now / 1000 + 1)) (h : x.search? now zone = some r) :
    now < r := by
  obtain ⟨t, rfl, hle, -⟩ := x.moment?_of_search? now r zone h
  -- an earlier moment would have shown the time with which the search begins, or a later one
  have hlt : ¬ t < now / 1000 + 1 := fun hlt => hz ⟨t, hlt, hle⟩
  lia

theorem Pattern.lt_of_search? (p : Pattern) (now r : Instant) (zone : Option Zone)
    (hz : ¬ (zone.getD .utc).Repeats (now / 1000 + 1)) (h : p.search? now zone = some r) :
    now < r := by
  have hm := (List.min?_eq_some_iff.mp h).1
  obtain ⟨x, -, hx⟩ := List.mem_filterMap.mp hm
  exact x.lt_of_search? now r zone hz hx

end Cron

namespace Trigger.Store

theorem retire_triggers (s : Store) (key : TriggerKey) :
    (s.retire key).triggers = s.triggers.erase key := by
  unfold retire
  cases hg : s.triggers.get? key with
  | none => exact (Table.erase_of_notMem _ _ ((Table.get?_eq_none_iff _ _).mp hg)).symm
  | some p =>
    dsimp only
    split <;> rfl

theorem mem_triggers_of_foldl_retire (s : Store) (visits : Table TriggerKey Visit)
    (e : TriggerKey × Pending) (h : e ∈ (visits.foldl (fun s v => s.retire v.1) s).triggers) :
    e ∈ s.triggers ∧ e.1 ∉ visits.keys := by
  induction visits generalizing s with
  | nil => exact ⟨h, List.not_mem_nil⟩
  | cons v visits ih =>
    obtain ⟨hm, hk⟩ := ih (s.retire v.1) h
    rw [retire_triggers] at hm
    obtain ⟨hm, hne⟩ := (Table.mem_erase s.triggers v.1 e.1 e.2).mp hm
    exact ⟨hm, List.not_mem_cons_of_ne_of_not_mem hne hk⟩

theorem visits_of_acquire (s s' : Store) (now : Instant) (fired : List Bundle)
    (h : s.acquire now = (.ok fired, s')) :
    (∀ b ∈ fired, ∃ p v, p ∈ s.triggers.map (·.2) ∧ s.visit now p = .ok v ∧ v.bundle = some b) ∧
      ∀ e ∈ s'.triggers, ∃ p v, s.visit now p = .ok v ∧ v.exhausted = false ∧ e.2 = v.pending := by
  unfold acquire at h
  have hpass := s.triggers.pass_eq_ok (s.visit now)
  generalize s.triggers.pass (s.visit now) = x at h hpass
  obtain ⟨_ | ⟨⟨⟩⟩, done, rest⟩ := x
  · cases h
  obtain ⟨rfl, hdone⟩ := hpass done rest rfl
  obtain ⟨hfired, rfl⟩ := Prod.mk.inj h
  cases hfired
  constructor
  · intro b hb
    obtain ⟨e, he, hb⟩ := List.mem_filterMap.mp hb
    obtain ⟨p, hp, hv⟩ := hdone e he
    exact ⟨p, e.2, List.mem_map_of_mem (f := (·.2)) hp, hv, hb⟩
  · intro e he
    obtain ⟨hm, hk⟩ := mem_triggers_of_foldl_retire _ _ e he
    obtain ⟨x, hx, rfl⟩ := List.mem_map.mp (List.append_nil _ ▸ hm)
    obtain ⟨p, -, hv⟩ := hdone x hx
    refine ⟨p, x.2, hv, ?_, rfl⟩
    by_contra hex
    exact hk (List.mem_map.mpr ⟨x, List.mem_filter.mpr ⟨hx, Bool.not_eq_false _ ▸ hex⟩, rfl⟩)

theorem lt_nextFire_of_acquire (s s' : Store) (now : Instant) (zone : Option Zone)
    (hz : ¬ (zone.getD .utc).Repeats (now / 1000 + 1)) (fired : List Bundle)
    (h : s.acquire now = (.ok fired, s')) (e : TriggerKey × Pending) (he : e ∈ s'.triggers)
    (x : Expression) (hx : e.2.trigger.timing = .cron x zone) : now < e.2.nextFire := by
  obtain ⟨p, v, hv, hex, hp⟩ := (s.visits_of_acquire s' now fired h).2 e he
  rw [hp] at hx ⊢
  unfold visit at hv
  split at hv
  next hlt =>
    cases hv
    exact hlt
  · split at hv
    · cases hv
      cases hex
    · cases hf : p.following? now with
      | error err =>
        rw [hf] at hv
        cases hv
      | ok o =>
        rw [hf] at hv
        cases o with
        | none =>
          cases hv
          cases hex
        | some t =>
          cases hv
          rw [Pending.following?, hx] at hf
          exact x.lt_of_search? now t zone hz (Expression.search?_of_next? hf)

/-- A trigger that fires in a tick was due. -/
theorem due_of_acquire (s s' : Store) (now : Instant) (fired : List Bundle)
    (h : s.acquire now = (.ok fired, s')) (b : Bundle) (hb : b ∈ fired) :
    ∃ e ∈ s.triggers, e.2.trigger = b.trigger ∧ e.2.nextFire ≤ now := by
  obtain ⟨p, v, hp, hv, hvb⟩ := (s.visits_of_acquire s' now fired h).1 b hb
  obtain ⟨e, he, rfl⟩ := List.mem_map.mp hp
  unfold visit at hv
  split at hv
  · cases hv
    cases hvb
  next hle =>
    split at hv
    · cases hv
      cases hvb
    · refine ⟨e, he, ?_, not_lt.mp hle⟩
      cases hf : e.2.following? now with
      | error err =>
        rw [hf] at hv
        cases hv
      | ok o =>
        rw [hf] at hv
        cases o <;>
          · cases hv
            cases hvb
            rfl

end Trigger.Store

namespace Runner.Engine

theorem not_due_of_acquire (e e' : Engine) (now : Instant) (launched : List Launch)
    (hz : ¬ (e.zone.getD .utc).Repeats (now / 1000 + 1))
    (h : e.acquire now = (.ok launched, e')) : ∀ x ∈ e'.entries, x.2.due now = false := by
  obtain ⟨-, _, -, ha⟩ | ⟨-, ha⟩ := e.acquire_eq now
  · cases ha.symm.trans h
  cases ha.symm.trans h
  intro x hx
  obtain ⟨y, -, rfl⟩ := List.mem_map.mp hx
  unfold Entry.advance
  split
  · simp only [Entry.refresh, Entry.due, Option.any_eq_false, decide_eq_false_iff_not, not_le]
    exact fun r hr => y.2.pattern.lt_of_search? now r e.zone hz hr
  next hd => exact Bool.eq_false_iff.mpr hd

theorem acquire_of_not_due (e : Engine) (now : Instant) (h : ∀ x ∈ e.entries, x.2.due now = false) :
    e.acquire now = (.ok [], e) := by
  obtain ⟨⟨x, hx, hj⟩, -⟩ | ⟨-, ha⟩ := e.acquire_eq now
  · cases (h x hx).symm.trans hj.1
  have hd : e.due now = [] := by
    rw [due, List.filter_eq_nil_iff.mpr fun x hx => by simp [h x hx]]
    rfl
  have hm : e.advanced now = e.entries := by
    refine (List.map_congr_left fun x hx => ?_).trans (List.map_id e.entries)
    simp [Entry.advance, h x hx]
  rw [ha, hd, hm]

end Runner.Engine

/-- What a search in a zone finds lies ahead exactly if the clocks have not shown its time yet, and
so it does unless they have just been put back. Then nothing that a tick leaves in the zone waits
for an instant that has come, and another tick at the same instant fires nothing there. -/
theorem found_instants_lie_ahead (now : Instant) (zone : Option Zone) :
    (∀ (x : Expression) (r : Instant), x.next? now zone = .ok (some r) → (now < r ↔
      ∀ m ≤ now / 1000, (zone.getD .utc).wallTime m ≠ (zone.getD .utc).wallTime (r / 1000))) ∧
    (¬ (zone.getD .utc).Repeats (now / 1000 + 1) →
      (∀ (x : Expression) (r : Instant), x.next? now zone = .ok (some r) → now < r) ∧
      (∀ (p : Pattern) (r : Instant), p.next? now zone = .ok (some r) → now < r) ∧
      (∀ (s s' : Trigger.Store) (fired : List Trigger.Bundle), s.acquire now = (.ok fired, s') →
        (∀ e ∈ s'.triggers, ∀ x, e.2.trigger.timing = .cron x zone → now < e.2.nextFire) ∧
          ∀ again s'', s'.acquire now = (.ok again, s'') →
            ∀ b ∈ again, ∀ x, b.trigger.timing ≠ .cron x zone) ∧
      ∀ (e e' : Runner.Engine) (launched : List Runner.Launch), e.zone = zone →
        e.acquire now = (.ok launched, e') →
          (∀ x ∈ e'.entries, x.2.due now = false) ∧ e'.acquire now = (.ok [], e')) := by
  refine ⟨fun x r h => x.lt_search?_iff now r zone (Expression.search?_of_next? h), fun hz => ?_⟩
  refine ⟨fun x r h => x.lt_of_search? now r zone hz (Expression.search?_of_next? h),
    fun p r h => p.lt_of_search? now r zone hz (Pattern.search?_of_next? h), ?_, ?_⟩
  · intro s s' fired h
    have hlater := s.lt_nextFire_of_acquire s' now zone hz fired h
    refine ⟨hlater, fun again s'' h' b hb x hx => ?_⟩
    obtain ⟨e, he, ht, hle⟩ := s'.due_of_acquire s'' now again h' b hb
    exact absurd (hlater e he x (ht ▸ hx)) (not_lt.mpr hle)
  · rintro e e' launched rfl h
    have hd := e.not_due_of_acquire e' now launched hz h
    exact ⟨hd, e'.acquire_of_not_due now hd⟩

theorem parse_half_past_two :
    ∃ x, Expression.parse "0 30 2 * * *" = .ok x ∧
      x.next? 1919290500000 (some (.european "Europe/Paris" 3600)) = .ok (some 1919291400000) ∧
      x.next? 1919294100000 (some (.european "Europe/Paris" 3600)) = .ok (some 1919291400000) :=
  exists_ok_of_any (by decide +kernel)

theorem not_repeats_at_first : ¬ (Zone.european "Europe/Paris" 3600).Repeats 1919290501 := by
  intro h
  have hd := ((Zone.repeats_iff _ _ rfl (by decide) _).mp h).1
  revert hd
  decide +kernel

/-- A quarter past two in Paris, when the clocks will show the same time once more in an hour. -/
theorem half_past_two_lies_ahead :
    ¬ ((some (Zone.european "Europe/Paris" 3600)).getD .utc).Repeats (1919290500000 / 1000 + 1) ∧
      ∃ x, Expression.parse "0 30 2 * * *" = .ok x ∧
        x.next? 1919290500000 (some (.european "Europe/Paris" 3600)) = .ok (some 1919291400000) ∧
        (1919290500000 : Instant) < 1919291400000 := by
  have hz : ¬ ((some (Zone.european "Europe/Paris" 3600)).getD .utc).Repeats
      (1919290500000 / 1000 + 1) := not_repeats_at_first
  obtain ⟨x, hx, hn, -⟩ := parse_half_past_two
  exact ⟨hz, x, hx, hn, ((found_instants_lie_ahead _ _).2 hz).1 x _ hn⟩

/-- At a quarter past two, an hour later, half past two is found before the hour was repeated:
three quarters of an hour ago. -/
theorem half_past_two_lies_behind :
    ∃ x, Expression.parse "0 30 2 * * *" = .ok x ∧
      Zone.find? "Europe/Paris" = some (.european "Europe/Paris" 3600) ∧
      ∃ r, x.next? 1919294100000 (some (.european "Europe/Paris" 3600)) = .ok (some r) ∧
        ¬ (1919294100000 : Instant) < r := by
  obtain ⟨x, hx, -, hn⟩ := parse_half_past_two
  exact ⟨x, hx, by decide +kernel, _, hn, by decide⟩

end CronTasks
