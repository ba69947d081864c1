import CronTasks.Proofs.Trigger.Run
import Mathlib.Data.List.Chain
import Mathlib.Data.List.Perm.Subperm
import Mathlib.Order.Bounds.Basic

namespace CronTasks.Trigger

open Calendar Cron

namespace Repetition

/-- The schedule of a repetition: its start, and then every interval for as often as it
repeats. -/
def instants (r : Repetition) : Set Instant :=
  {t | ∃ k : Nat, (∀ n, r.repeats = some n → k ≤ n) ∧ (r.interval = 0 → k = 0) ∧
    t = r.startAt + (k * r.interval : Nat)}

theorem startAt_mem_instants (r : Repetition) : r.startAt ∈ r.instants :=
  ⟨0, by simp, by simp, by simp⟩

theorem next?_mem_instants (r : Repetition) (after t : Instant) (h : r.next? after = some t) :
    t ∈ r.instants ∧ after < t := by
  unfold next? at h
  split at h
  next hlt =>
    cases h
    exact ⟨r.startAt_mem_instants, hlt⟩
  next hle =>
    split at h
    · cases h
    next hi =>
      simp only at h
      split at h
      · cases h
      next hk =>
        simp only [instant?, Instant.plus?] at h
        split at h
        · cases h
          have hpos : 0 < r.interval := Nat.pos_of_ne_zero hi
          have hlt := Nat.lt_mul_div_succ (after - r.startAt).toNat hpos
          refine ⟨⟨_, fun n hn => ?_, fun h0 => absurd h0 hi, rfl⟩, ?_⟩
          · simpa [hn] using hk
          · rw [Nat.mul_comm r.interval] at hlt
            generalize ((after - r.startAt).toNat / r.interval + 1) * r.interval = offset at hlt ⊢
            lia
        · cases h

theorem next?_index (r : Repetition) (k : Nat) :
    r.next? (r.startAt + (k * r.interval : Nat)) =
      if r.interval = 0 ∨ r.repeats.any (· < k + 1) then none else r.instant? (k + 1) := by
  have hlt : ¬ r.startAt + (k * r.interval : Nat) < r.startAt := by lia
  have hd : r.startAt + (k * r.interval : Nat) - r.startAt = (k * r.interval : Nat) := by lia
  rw [next?, if_neg hlt]
  by_cases hi : r.interval = 0
  · rw [if_pos hi, if_pos (.inl hi)]
  · have hk : (r.startAt + (k * r.interval : Nat) - r.startAt).toNat / r.interval = k := by
      rw [hd, Int.toNat_natCast, Nat.mul_div_cancel k (Nat.pos_of_ne_zero hi)]
    simp only [hi, ↓reduceIte, hk, false_or]

theorem instant?_succ (r : Repetition) (k : Nat) :
    r.instant? (k + 1) = (r.startAt + (k * r.interval : Nat)).plus? r.interval := by
  have hk : r.startAt + ((k + 1) * r.interval : Nat) =
      r.startAt + (k * r.interval : Nat) + r.interval := by
    rw [Nat.succ_mul]
    lia
  simp only [instant?, Instant.plus?, hk]

theorem next?_of_mem (r : Repetition) (p t : Instant) (hp : p ∈ r.instants)
    (h : r.next? p = some t) : t = p + r.interval := by
  obtain ⟨k, -, -, rfl⟩ := hp
  rw [next?_index, instant?_succ] at h
  split at h
  · cases h
  · simp only [Instant.plus?] at h
    split at h
    · cases h
      rfl
    · cases h

/-- Nothing comes after an instant of the schedule only if it is the last one, or if the one an
interval later cannot be represented. -/
theorem isGreatest_of_next?_eq_none (r : Repetition) (p : Instant) (hp : p ∈ r.instants)
    (h : r.next? p = none) : IsGreatest r.instants p ∨ ¬ (p + r.interval).InRange := by
  by_cases hr : (p + r.interval).InRange
  · refine .inl ⟨hp, ?_⟩
    obtain ⟨k, -, -, rfl⟩ := hp
    rw [next?_index, instant?_succ, Instant.plus?, if_pos hr] at h
    rintro _ ⟨j, hj, hj0, rfl⟩
    have hlast : r.interval = 0 ∨ r.repeats.any (· < k + 1) = true := by
      by_contra hn
      rw [if_neg hn] at h
      cases h
    obtain hi | hn := hlast
    · simp [hi]
    · obtain ⟨n, hn, hk⟩ := (Option.any_eq_true _ _).mp hn
      have hjk : j ≤ k := (hj n hn).trans (Nat.lt_succ_iff.mp (of_decide_eq_true hk))
      have hle := Nat.mul_le_mul_right r.interval hjk
      lia
  · exact .inr hr

theorem length_le_of_subset_instants (r : Repetition) (n : Nat) (hn : r.repeats = some n)
    (ts : List Instant) (hd : ts.Nodup) (hs : ∀ t ∈ ts, t ∈ r.instants) : ts.length ≤ n + 1 := by
  have hsub : ts ⊆ (List.range (n + 1)).map fun k => r.startAt + (k * r.interval : Nat) := by
    intro t ht
    obtain ⟨k, hk, -, rfl⟩ := hs t ht
    exact List.mem_map.mpr ⟨k, List.mem_range.mpr (Nat.lt_succ_of_le (hk n hn)), rfl⟩
  simpa using (List.subperm_of_subset hd hsub).length_le

end Repetition

theorem Pending.Jammed.later {p : Pending} {now t : Instant} (h : p.Jammed now) (ht : now ≤ t) :
    p.Jammed t := by
  refine ⟨h.1.trans ht, ?_, h.2.2⟩
  have hlast := h.2.1
  simp only [Instant.hasNextSecond, decide_eq_false_iff_not] at hlast ⊢
  lia

namespace Engine

/-- Calls that are not for a job or for the trigger that it was scheduled with. -/
def Call.Spares (job : JobKey) (key : TriggerKey) : Call → Prop
  | .schedule _ detail _ => detail.key ≠ job
  | .reschedule _ k _ => k ≠ key
  | .delete j => j ≠ job
  | _ => True

def fireTimes (job : JobKey) (bs : List Bundle) : List Instant :=
  (bs.filter (·.detail.key == job)).map (·.scheduledAt)

theorem fireTimes_append (job : JobKey) (bs cs : List Bundle) :
    fireTimes job (bs ++ cs) = fireTimes job bs ++ fireTimes job cs := by
  simp [fireTimes]

theorem task?_schedule_of_ne (e : Engine) (h : e.store.Sound) (host : Host) (detail : JobDetail)
    (trigger : Trigger) (job : JobKey) (hj : detail.key ≠ job) :
    (e.schedule host detail trigger).2.store.task? job = e.store.task? job := by
  obtain ⟨_, hu⟩ | ⟨now, t, s, -, hs, hu⟩ := e.schedule_cases host detail trigger
  · rw [hu]
  · simp only [hu, h.task?_schedule now t detail trigger hs]
    exact if_neg (Ne.symm hj)

theorem task?_reschedule_of_ne (e : Engine) (h : e.store.Sound) (host : Host) (k : TriggerKey)
    (trigger : Trigger) (job : JobKey)
    (hk : ∀ d p, e.store.task? job = some (d, p) → p.trigger.key ≠ k) :
    (e.reschedule host k trigger).2.store.task? job = e.store.task? job := by
  obtain ⟨_, hu⟩ | ⟨now, t, s, -, hs, hu⟩ := e.reschedule_cases host k trigger
  · rw [hu]
  · obtain ⟨old, ho, -⟩ := (e.store.reschedule_eq_ok_iff s now t k trigger).mp hs
    simp only [hu, h.task?_reschedule now t k trigger old ho hs]
    -- otherwise the trigger under the key would be that of the job
    refine if_neg fun hj => ?_
    have hm := Table.mem_of_get?_eq_some e.store.triggers k old ho
    obtain ⟨d, hd⟩ := h.task?_of_trigger k old hm
    exact hk d old (hj ▸ hd) (h.trigger_key _ hm)

theorem task?_delete_of_ne (e : Engine) (h : e.store.Sound) (job j : JobKey) (hj : j ≠ job) :
    (e.store.delete j).2.task? job = e.store.task? job := by
  rw [(e.store.revised_delete j).task?_eq h (Pending.moves_unless? j)]
  cases ht : e.store.task? job with
  | none => rfl
  | some x =>
    have hx : x.2.trigger.jobKey = job := ((h.task?_eq_some_iff job x.1 x.2).mp ht).2.2
    simp [Pending.unless?, hx, Ne.symm hj]

/-- A start that panics may have come to the trigger of a job by then, or not. -/
theorem task?_start (e : Engine) (h : e.store.Sound) (host : Host) (job : JobKey) :
    (e.start host).2.store.task? job = e.store.task? job ∨
      ∃ now, (e.start host).2.store.task? job =
        (e.store.task? job).bind fun x => (x.2.resume? now).map (x.1, ·) := by
  have hst := e.started h host
  have hmoves := Pending.moves_resume?
  generalize e.start host = x at hst
  cases hst with
  | refused | idle | untimed => exact .inl rfl
  | stuck _ _ now _ _ keys _ =>
    have ht := (e.store.revised_alter _).task?_eq h ((hmoves now).among keys) job
    cases htask : e.store.task? job with
    | none => exact .inl (by simp only [ht, htask, Option.bind_none])
    | some y =>
      simp only [htask, Option.bind_some, Pending.among] at ht
      split at ht
      · exact .inr ⟨now, by simp only [ht, Option.bind_some]⟩
      · exact .inl (by simp only [ht, Option.map_some])
  | resumed _ _ now _ _ =>
    exact .inr ⟨now, (e.store.revised_dropIdle _).task?_eq h (hmoves now) job⟩

theorem task?_call_of_spares (e : Engine) (h : e.store.Sound) (job : JobKey) (key : TriggerKey)
    (hk : ∀ d p, e.store.task? job = some (d, p) → p.trigger.key = key) (c : Call)
    (hc : c.Spares job key) :
    ((e.call c).1.filter (·.detail.key == job) = [] ∧
        (e.call c).2.store.task? job = e.store.task? job) ∨
      (∃ host now, c = .start host ∧ (e.call c).1.filter (·.detail.key == job) = [] ∧
        (e.call c).2.store.task? job =
          (e.store.task? job).bind fun x => (x.2.resume? now).map (x.1, ·)) ∨
      (∃ now d p, c = .acquire now ∧ e.store.Jammed now ∧
        (e.call c).1.filter (·.detail.key == job) = [] ∧ e.store.task? job = some (d, p) ∧
        (e.call c).2.store.task? job = some (d, p.moved now)) ∨
      (∃ now, c = .acquire now ∧ ¬ e.store.Jammed now ∧
        (e.call c).1.filter (·.detail.key == job) = (e.store.firing? now job).toList ∧
        (e.call c).2.store.task? job =
          (e.store.task? job).bind fun x => (x.2.advance? now).map (x.1, ·)) := by
  cases c with
  | schedule host detail trigger =>
    exact .inl ⟨rfl, e.task?_schedule_of_ne h host detail trigger job hc⟩
  | reschedule host k trigger =>
    have hne (d : JobDetail) (p : Pending) (hp : e.store.task? job = some (d, p)) :
        p.trigger.key ≠ k := hk d p hp ▸ Ne.symm hc
    exact .inl ⟨rfl, e.task?_reschedule_of_ne h host k trigger job hne⟩
  | delete j => exact .inl ⟨rfl, e.task?_delete_of_ne h job j hc⟩
  | start host =>
    obtain hn | ⟨now, hn⟩ := e.task?_start h host job
    · exact .inl ⟨rfl, hn⟩
    · exact .inr (.inl ⟨host, now, rfl, rfl, hn⟩)
  | standby => exact .inl ⟨rfl, rfl⟩
  | acquire now =>
    obtain ⟨hj, hf, ht | ⟨d, p, hp, -, ht⟩⟩ | ⟨hj, hf, ht⟩ := e.task?_acquire h now job
    · exact .inl ⟨by rw [hf]; rfl, ht⟩
    · exact .inr (.inr (.inl ⟨now, d, p, rfl, hj, by rw [hf]; rfl, hp, ht⟩))
    · exact .inr (.inr (.inr ⟨now, rfl, hj, hf, ht⟩))
  | arrange rank =>
    refine .inl ⟨rfl, ?_⟩
    have ht := (e.store.revised_arranged rank).task?_eq h Pending.moves_some job
    rw [show (e.call (.arrange rank)).2.store = e.store.arranged rank from rfl, ht]
    cases e.store.task? job <;> rfl

/-- The trigger of a job stands under a key and waits for an instant of a repetition, unless
it is gone. -/
structure Awaits (e : Engine) (job : JobKey) (key : TriggerKey) (r : Repetition) : Prop where
  sound : e.store.Sound
  key_eq : ∀ d p, e.store.task? job = some (d, p) → p.trigger.key = key
  timing_eq : ∀ d p, e.store.task? job = some (d, p) → p.trigger.timing = .simple r
  mem_instants : ∀ t ∈ e.awaited? job, t ∈ r.instants

theorem resume?_simple (r : Repetition) (p q : Pending) (now : Instant)
    (ht : p.trigger.timing = .simple r) (hp : p.nextFire ∈ r.instants)
    (hq : p.resume? now = some q) : q.nextFire ∈ r.instants ∧ p.nextFire ≤ q.nextFire := by
  unfold Pending.resume? at hq
  split at hq
  · cases hq
    exact ⟨hp, le_refl _⟩
  next hlate =>
    rw [ht] at hq
    obtain ⟨t, hr, rfl⟩ := Option.map_eq_some_iff.mp hq
    obtain ⟨hm, hlt⟩ := r.next?_mem_instants now t hr
    refine ⟨hm, ?_⟩
    simp only [grace] at hlate
    lia

theorem advance?_simple (r : Repetition) (p q : Pending) (now : Instant)
    (ht : p.trigger.timing = .simple r) (hp : p.nextFire ∈ r.instants) (hd : p.nextFire ≤ now)
    (hq : p.advance? now = some q) :
    q.nextFire ∈ r.instants ∧ p.nextFire < q.nextFire ∧ q.nextFire = p.nextFire + r.interval := by
  rw [p.advance?_of_le now hd, Pending.next?, ht] at hq
  obtain ⟨t, hn, rfl⟩ := Option.map_eq_some_iff.mp hq
  obtain ⟨hm, hlt⟩ := r.next?_mem_instants p.nextFire t hn
  exact ⟨hm, hlt, r.next?_of_mem p.nextFire t hp hn⟩

theorem moved_simple (r : Repetition) (p : Pending) (now : Instant)
    (ht : p.trigger.timing = .simple r) (hp : p.nextFire ∈ r.instants) :
    (p.moved now).nextFire ∈ r.instants ∧ p.nextFire ≤ (p.moved now).nextFire := by
  by_cases hd : p.nextFire ≤ now
  · cases hq : p.advance? now with
    | none =>
      rw [Pending.moved, hq]
      exact ⟨hp, le_refl _⟩
    | some q =>
      obtain ⟨hm, hlt, -⟩ := advance?_simple r p q now ht hp hd hq
      rw [Pending.moved, hq]
      exact ⟨hm, hlt.le⟩
  · rw [p.moved_of_lt now (not_le.mp hd)]
    exact ⟨hp, le_refl _⟩

theorem Awaits.moved {e e' : Engine} {job : JobKey} {key : TriggerKey} {r : Repetition}
    (h : e.Awaits job key r) (hs : e'.store.Sound) (f : Pending → Option Pending)
    (hf : Pending.Moves f) (d : JobDetail) (p : Pending) (ht : e.store.task? job = some (d, p))
    (hi : ∀ q, f p = some q → q.nextFire ∈ r.instants)
    (hn : e'.store.task? job = (f p).map (d, ·)) :
    e'.Awaits job key r ∧ e'.awaited? job = (f p).map (·.nextFire) := by
  have haw : e'.awaited? job = (f p).map (·.nextFire) := by
    simp [awaited?, hn, Function.comp_def]
  have hq (d' : JobDetail) (q : Pending) (hq : e'.store.task? job = some (d', q)) :
      q.trigger = p.trigger := by
    obtain ⟨q', hq', he⟩ := Option.map_eq_some_iff.mp (hn ▸ hq)
    cases he
    exact hf p q hq'
  refine ⟨⟨hs, ?_, ?_, ?_⟩, haw⟩
  · intro d' q hd
    rw [hq d' q hd, h.key_eq d p ht]
  · intro d' q hd
    rw [hq d' q hd, h.timing_eq d p ht]
  · intro t htt
    rw [haw] at htt
    obtain ⟨q, hq, rfl⟩ := Option.map_eq_some_iff.mp htt
    exact hi q hq

/-- After a tick that does not panic, the next instant is waited for, if this one has come. -/
theorem Awaits.ticked {e e' : Engine} {job : JobKey} {key : TriggerKey} {r : Repetition}
    (h : e.Awaits job key r) (hs : e'.store.Sound) (now : Instant) (d : JobDetail) (p : Pending)
    (ht : e.store.task? job = some (d, p)) (hn : e'.store.task? job = (p.advance? now).map (d, ·)) :
    e'.Awaits job key r ∧
      (p.nextFire ≤ now → ∀ u ∈ e'.awaited? job, p.nextFire < u ∧ u = p.nextFire + r.interval) ∧
      (now < p.nextFire → e'.awaited? job = some p.nextFire) := by
  have htm := h.timing_eq d p ht
  have hm := h.mem_instants p.nextFire (by simp [awaited?, ht])
  by_cases hd : p.nextFire ≤ now
  · obtain ⟨haw, hae⟩ := h.moved hs _ (Pending.moves_advance? now) d p ht
      (fun q hq => (advance?_simple r p q now htm hm hd hq).1) hn
    refine ⟨haw, fun _ u hu => ?_, fun hlt => absurd hd (not_le.mpr hlt)⟩
    rw [hae] at hu
    obtain ⟨q, hq, rfl⟩ := Option.map_eq_some_iff.mp hu
    exact (advance?_simple r p q now htm hm hd hq).2
  · have hp : p.advance? now = some p := p.advance?_of_lt now (not_le.mp hd)
    obtain ⟨haw, hae⟩ := h.moved hs _ (Pending.moves_advance? now) d p ht
      (fun q hq => by rw [hp] at hq; cases hq; exact hm) hn
    exact ⟨haw, fun hle => absurd hle hd, fun _ => by rw [hae, hp]; rfl⟩

theorem Awaits.gone_call {e : Engine} {job : JobKey} {key : TriggerKey} {r : Repetition}
    (h : e.Awaits job key r) (c : Call) (hc : c.Spares job key) (ht : e.store.task? job = none) :
    fireTimes job (e.call c).1 = [] ∧ (e.call c).2.store.task? job = none := by
  have hcases := e.task?_call_of_spares h.sound job key h.key_eq c hc
  obtain ⟨hf, hn⟩ | ⟨_, _, _, hf, hn⟩ | ⟨_, _, _, _, _, _, hp, _⟩ | ⟨_, _, _, hf, hn⟩ := hcases
  · exact ⟨by rw [fireTimes, hf]; rfl, hn.trans ht⟩
  · exact ⟨by rw [fireTimes, hf]; rfl, by rw [hn, ht]; rfl⟩
  · cases ht.symm.trans hp
  · exact ⟨by rw [fireTimes, hf, Store.firing?, ht]; rfl, by rw [hn, ht]; rfl⟩

/-- No start, and no tick that panics. -/
def Smooth (e : Engine) (c : Call) : Prop :=
  (∀ host, c ≠ .start host) ∧ ∀ now, c = .acquire now → ¬ e.store.Jammed now

/-- A call either fires the instant that is waited for, and then the trigger waits for the
next one, or it fires nothing, and then only a start or a panic can put the trigger off. -/
theorem Awaits.fireTimes_call {e : Engine} {job : JobKey} {key : TriggerKey} {r : Repetition}
    (h : e.Awaits job key r) (c : Call) (hc : c.Spares job key) :
    (e.call c).2.Awaits job key r ∧
      ((fireTimes job (e.call c).1 = [] ∧ ∀ u ∈ (e.call c).2.awaited? job,
          ∃ t ∈ e.awaited? job, t ≤ u ∧ (e.Smooth c → t = u)) ∨
        ∃ t ∈ e.awaited? job, fireTimes job (e.call c).1 = [t] ∧
          ∀ u ∈ (e.call c).2.awaited? job, t < u ∧ u = t + r.interval) := by
  have hs := e.sound_call h.sound c
  have hcases := e.task?_call_of_spares h.sound job key h.key_eq c hc
  cases ht : e.store.task? job with
  | none =>
    obtain ⟨hf, hn⟩ := h.gone_call c hc ht
    exact ⟨⟨hs, by simp [hn], by simp [hn], by simp [awaited?, hn]⟩,
      .inl ⟨hf, by simp [awaited?, hn]⟩⟩
  | some x =>
    obtain ⟨d, p⟩ := x
    have htm := h.timing_eq d p ht
    have hm := h.mem_instants p.nextFire (by simp [awaited?, ht])
    have ha : e.awaited? job = some p.nextFire := by simp [awaited?, ht]
    simp only [ht, Option.bind_some] at hcases
    obtain ⟨hf, hn⟩ | ⟨host, now, rfl, hf, hn⟩ | ⟨now, _, _, rfl, hj, hf, he, hn⟩ |
      ⟨now, rfl, -, hf, hn⟩ := hcases
    · obtain ⟨haw, hae⟩ := h.moved hs some Pending.moves_some d p ht
        (fun q hq => by cases hq; exact hm) hn
      exact ⟨haw, .inl ⟨by simp [fireTimes, hf], by simp [hae, ha]⟩⟩
    · obtain ⟨haw, hae⟩ := h.moved hs _ (Pending.moves_resume? now) d p ht
        (fun q hq => (resume?_simple r p q now htm hm hq).1) hn
      refine ⟨haw, .inl ⟨by simp [fireTimes, hf], fun u hu => ⟨p.nextFire, ha, ?_, ?_⟩⟩⟩
      · rw [hae] at hu
        obtain ⟨q, hq, rfl⟩ := Option.map_eq_some_iff.mp hu
        exact (resume?_simple r p q now htm hm hq).2
      · exact fun hsmooth => absurd rfl (hsmooth.1 host)
    · cases he
      have hslip := moved_simple r p now htm hm
      obtain ⟨haw, hae⟩ := h.moved hs _ (Pending.moves_moved now) d p ht
        (fun q hq => by cases hq; exact hslip.1) hn
      refine ⟨haw, .inl ⟨by simp [fireTimes, hf], fun u hu => ⟨p.nextFire, ha, ?_, ?_⟩⟩⟩
      · rw [hae] at hu
        cases hu
        exact hslip.2
      · exact fun hsmooth => absurd hj (hsmooth.2 now rfl)
    · obtain ⟨haw, hgo, hstay⟩ := h.ticked hs now d p ht hn
      by_cases hd : p.nextFire ≤ now
      · exact ⟨haw, .inr ⟨p.nextFire, ha, by simp [fireTimes, hf, Store.firing?, ht, hd], hgo hd⟩⟩
      · refine ⟨haw, .inl ⟨by simp [fireTimes, hf, Store.firing?, ht, hd], ?_⟩⟩
        simp [hstay (not_le.mp hd), ha]

theorem Awaits.calls {e : Engine} {job : JobKey} {key : TriggerKey} {r : Repetition}
    (h : e.Awaits job key r) (cs : List Call) (hc : ∀ c ∈ cs, c.Spares job key) :
    (e.calls cs).2.Awaits job key r := by
  induction cs generalizing e with
  | nil => exact h
  | cons c cs ih =>
    exact ih (h.fireTimes_call c (hc c List.mem_cons_self)).1
      fun d hd => hc d (List.mem_cons_of_mem c hd)

theorem Awaits.fireTimes_calls {e : Engine} {job : JobKey} {key : TriggerKey} {r : Repetition}
    (h : e.Awaits job key r) (cs : List Call) (hc : ∀ c ∈ cs, c.Spares job key) :
    (∀ t ∈ fireTimes job (e.calls cs).1, t ∈ r.instants ∧ ∃ u ∈ e.awaited? job, u ≤ t) ∧
      (fireTimes job (e.calls cs).1).Pairwise (· < ·) := by
  induction cs generalizing e with
  | nil => simp [Engine.calls, fireTimes]
  | cons c cs ih =>
    obtain ⟨ha, hf⟩ := h.fireTimes_call c (hc c List.mem_cons_self)
    obtain ⟨hmem, hlt⟩ := ih ha fun d hd => hc d (List.mem_cons_of_mem c hd)
    simp only [Engine.calls, fireTimes_append]
    obtain ⟨hn, hu⟩ | ⟨t, ht, hn, hu⟩ := hf
    · rw [hn, List.nil_append]
      refine ⟨fun t ht => ⟨(hmem t ht).1, ?_⟩, hlt⟩
      obtain ⟨u, hu', hle⟩ := (hmem t ht).2
      obtain ⟨v, hv, hvu, _⟩ := hu u hu'
      exact ⟨v, hv, hvu.trans hle⟩
    · rw [hn, List.singleton_append]
      have hlater (v : Instant) (hv : v ∈ fireTimes job ((e.call c).2.calls cs).1) : t < v := by
        obtain ⟨u, hu', hle⟩ := (hmem v hv).2
        exact (hu u hu').1.trans_le hle
      refine ⟨fun v hv => ?_, List.pairwise_cons.mpr ⟨hlater, hlt⟩⟩
      obtain rfl | hv := List.mem_cons.mp hv
      · exact ⟨h.mem_instants v ht, v, ht, le_refl v⟩
      · exact ⟨(hmem v hv).1, t, ht, (hlater v hv).le⟩

theorem Awaits.fireTimes_cons {e : Engine} {job : JobKey} {key : TriggerKey} {r : Repetition}
    (h : e.Awaits job key r) (c : Call) (hc : c.Spares job key) (hs : e.Smooth c) (cs : List Call)
    (hhead : ∀ t ∈ (fireTimes job ((e.call c).2.calls cs).1).head?, t ∈ (e.call c).2.awaited? job)
    (hchain : (fireTimes job ((e.call c).2.calls cs).1).IsChain
      fun t u : Instant => u = t + r.interval) :
    (∀ t ∈ (fireTimes job (e.calls (c :: cs)).1).head?, t ∈ e.awaited? job) ∧
      (fireTimes job (e.calls (c :: cs)).1).IsChain fun t u : Instant => u = t + r.interval := by
  simp only [Engine.calls, fireTimes_append]
  obtain ⟨hn, hu⟩ | ⟨t, ht, hn, hu⟩ := (h.fireTimes_call c hc).2
  · rw [hn, List.nil_append]
    refine ⟨fun t ht => ?_, hchain⟩
    obtain ⟨v, hv, -, heq⟩ := hu t (hhead t ht)
    rwa [← heq hs]
  · rw [hn, List.singleton_append]
    exact ⟨by simpa using ht, List.isChain_cons.mpr ⟨fun u hu' => (hu u (hhead u hu')).2, hchain⟩⟩

/-- A run without a start, and without a tick that panics. -/
def Undisturbed (e : Engine) : List Call → Prop
  | [] => True
  | c :: cs => e.Smooth c ∧ (e.call c).2.Undisturbed cs

/-- Then no instant is left out, from the one waited for on. -/
theorem Awaits.fireTimes_stretch {e : Engine} {job : JobKey} {key : TriggerKey} {r : Repetition}
    (h : e.Awaits job key r) (cs : List Call) (hc : ∀ c ∈ cs, c.Spares job key)
    (hs : e.Undisturbed cs) :
    (∀ t ∈ (fireTimes job (e.calls cs).1).head?, t ∈ e.awaited? job) ∧
      (fireTimes job (e.calls cs).1).IsChain fun t u : Instant => u = t + r.interval := by
  induction cs generalizing e with
  | nil => simp [Engine.calls, fireTimes]
  | cons c cs ih =>
    have hspares := hc c List.mem_cons_self
    have ha := (h.fireTimes_call c hspares).1
    obtain ⟨hhead, hchain⟩ := ih ha (fun d hd => hc d (List.mem_cons_of_mem c hd)) hs.2
    exact h.fireTimes_cons c hspares hs.1 cs hhead hchain

/-- Calls that take out no trigger, nor replace one. -/
def Call.Leaves : Call → Prop
  | .reschedule .. | .delete _ => False
  | _ => True

def Call.clock? : Call → Option Instant
  | .schedule host _ _ | .reschedule host _ _ | .start host => some host.clock
  | .acquire now => some now
  | _ => none

/-- A trigger that makes a tick panic is in the way of all later ticks. -/
theorem jammed_call (e : Engine) (h : e.store.Sound) (now : Instant) (hj : e.store.Jammed now)
    (c : Call) (hc : c.Leaves) (hn : ∀ t ∈ c.clock?, now ≤ t) : (e.call c).2.store.Jammed now := by
  obtain ⟨k, p, hm, hp⟩ := hj
  have hkey : p.trigger.key = k := h.trigger_key _ hm
  have hstays {f : Pending → Option Pending} {s : Store} (hr : e.store.Revised f s)
      (hf : f p = some p) : s.Jammed now :=
    ⟨k, p, (hr.mem_triggers_iff k p).mpr ⟨p, hm, hf⟩, hp⟩
  have hresume (t : Instant) (ht : now ≤ t) (hfree : ¬ p.Stuck t) : p.resume? t = some p :=
    p.resume?_of_le t (not_lt.mp fun hlate => hfree ⟨hlate, (hp.later ht).2⟩)
  cases c with
  | schedule host detail trigger =>
    obtain ⟨_, hu⟩ | ⟨t, _, s, -, hs, hu⟩ := e.schedule_cases host detail trigger
    · simp only [call, hu]
      exact ⟨k, p, hm, hp⟩
    · obtain ⟨-, -, -, rfl⟩ := (e.store.schedule_eq_ok_iff s t _ detail trigger).mp hs
      simp only [call, hu]
      exact ⟨k, p, List.mem_append_left _ hm, hp⟩
  | reschedule => cases hc
  | delete => cases hc
  | start host =>
    have hst := e.started h host
    generalize hx : e.start host = x at hst
    cases hst with
    | refused | idle | untimed =>
      simp only [call, hx]
      exact ⟨k, p, hm, hp⟩
    | stuck _ _ t ht _ keys hk =>
      obtain ⟨-, -, rfl⟩ := (host.now_eq_ok_iff t).mp ht
      simp only [call, hx]
      -- what the start has got past did not have to search, and so was kept
      refine hstays (e.store.revised_alter _) ?_
      unfold Pending.among
      split
      next hmem => exact hresume _ (hn _ rfl) (hk k p hm (hkey ▸ hmem))
      next => rfl
    | resumed _ _ t ht hfree =>
      obtain ⟨-, -, rfl⟩ := (host.now_eq_ok_iff t).mp ht
      simp only [call, hx]
      exact hstays (e.store.revised_dropIdle _) (hresume _ (hn _ rfl) fun hst => hfree ⟨k, p, hm, hst⟩)
  | standby => exact ⟨k, p, hm, hp⟩
  | acquire t =>
    have ht := hn t rfl
    obtain ⟨-, keys, hk, hc'⟩ | ⟨hfree, -⟩ := e.acquire_cases h t
    · simp only [hc']
      refine hstays (e.store.revised_alter _) (if_neg fun hmem => ?_)
      exact hk k p hm (hkey ▸ hmem) (hp.later ht)
    · exact absurd ⟨k, p, hm, hp.later ht⟩ hfree
  | arrange rank => exact hstays (e.store.revised_arranged rank) rfl

/-- So after a tick has panicked nothing is fired, as long as that trigger stays. -/
theorem silent_of_jammed (e : Engine) (h : e.store.Sound) (now : Instant) (hj : e.store.Jammed now)
    (cs : List Call) (hc : ∀ c ∈ cs, c.Leaves) (hn : ∀ t ∈ cs.filterMap Call.clock?, now ≤ t) :
    (e.calls cs).1 = [] := by
  -- the trigger that panics stays, and is due at every later tick
  induction cs generalizing e with
  | nil => rfl
  | cons c cs ih =>
    have hclock (t : Instant) (ht : t ∈ c.clock?) : now ≤ t :=
      hn t (List.mem_filterMap.mpr ⟨c, List.mem_cons_self, ht⟩)
    have hfirst : (e.call c).1 = [] := by
      cases c with
      | acquire t =>
        obtain ⟨-, _, -, hc'⟩ | ⟨hfree, -⟩ := e.acquire_cases h t
        · rw [hc']
        · obtain ⟨k, p, hm, hp⟩ := hj
          exact absurd ⟨k, p, hm, hp.later (hclock t rfl)⟩ hfree
      | _ => rfl
    have hrest := ih (e.call c).2 (e.sound_call h c)
      (e.jammed_call h now hj c (hc c List.mem_cons_self) hclock)
      (fun d hd => hc d (List.mem_cons_of_mem c hd)) fun t ht => hn t (by
        obtain ⟨d, hd, hdt⟩ := List.mem_filterMap.mp ht
        exact List.mem_filterMap.mpr ⟨d, List.mem_cons_of_mem c hd, hdt⟩)
    rw [calls, hfirst, hrest]
    rfl

theorem Awaits.fireTimes_leaves {e : Engine} {job : JobKey} {key : TriggerKey} {r : Repetition}
    (h : e.Awaits job key r) (cs : List Call) (hc : ∀ c ∈ cs, c.Spares job key)
    (hl : ∀ c ∈ cs, c.Leaves) (hn : (cs.filterMap Call.clock?).Pairwise (· ≤ ·))
    (hs : ∀ host, .start host ∉ cs) :
    (∀ t ∈ (fireTimes job (e.calls cs).1).head?, t ∈ e.awaited? job) ∧
      (fireTimes job (e.calls cs).1).IsChain fun t u : Instant => u = t + r.interval := by
  induction cs generalizing e with
  | nil => simp [Engine.calls, fireTimes]
  | cons c cs ih =>
    have hspares := hc c List.mem_cons_self
    by_cases hsmooth : e.Smooth c
    · have ha := (h.fireTimes_call c hspares).1
      have hn' : (cs.filterMap Call.clock?).Pairwise (· ≤ ·) :=
        hn.sublist ((List.sublist_cons_self c cs).filterMap _)
      obtain ⟨hhead, hchain⟩ := ih ha (fun d hd => hc d (List.mem_cons_of_mem c hd))
        (fun d hd => hl d (List.mem_cons_of_mem c hd)) hn'
        fun host hm => hs host (List.mem_cons_of_mem c hm)
      exact h.fireTimes_cons c hspares hsmooth cs hhead hchain
    · have hstart (host : Host) : c ≠ .start host := fun he => hs host (he ▸ List.mem_cons_self)
      obtain ⟨now, rfl, hj⟩ : ∃ now, c = .acquire now ∧ e.store.Jammed now := by
        by_contra hne
        push Not at hne
        exact hsmooth ⟨hstart, hne⟩
      have hclocks : (Call.acquire now :: cs).filterMap Call.clock? = now :: cs.filterMap Call.clock? :=
        rfl
      rw [hclocks, List.pairwise_cons] at hn
      have hnil := e.silent_of_jammed h.sound now hj (.acquire now :: cs) hl fun t ht => by
        obtain rfl | ht := List.mem_cons.mp (hclocks ▸ ht)
        · exact le_refl _
        · exact hn.1 t ht
      simp [hnil, fireTimes]

theorem awaits_of_schedule (e e' : Engine) (h : e.store.Sound) (host : Host) (detail : JobDetail)
    (trigger : Trigger) (r : Repetition) (first : Instant) (hr : trigger.timing = .simple r)
    (ha : e.schedule host detail trigger = (.ok first, e')) :
    e'.Awaits detail.key trigger.key r ∧ e'.awaited? detail.key = some first := by
  obtain ⟨_, hu⟩ | ⟨now, t, s, -, hs, hu⟩ := e.schedule_cases host detail trigger
  · cases hu.symm.trans ha
  · cases hu.symm.trans ha
    have ht := h.task?_schedule now first detail trigger hs detail.key
    rw [if_pos rfl] at ht
    have haw : ({ e with store := s } : Engine).awaited? detail.key = some first := by
      simp [awaited?, ht]
    refine ⟨⟨h.schedule now first detail trigger hs, ?_, ?_, ?_⟩, haw⟩
    · intro d p hd
      cases ht.symm.trans hd
      rfl
    · intro d p hd
      cases ht.symm.trans hd
      exact hr
    · intro t htt
      obtain rfl : first = t := Option.some.inj (haw.symm.trans htt)
      obtain ⟨-, -, hf, -⟩ := (e.store.schedule_eq_ok_iff s now first detail trigger).mp hs
      have hfirst := (Store.firstFire_eq_ok_iff now first trigger).mp hf
      simp only [hr, Timing.first?, Except.ok.injEq] at hfirst
      split at hfirst
      · cases hfirst
        exact r.startAt_mem_instants
      · exact (r.next?_mem_instants now first hfirst).1

theorem Awaits.fires_due {e : Engine} {job : JobKey} {key : TriggerKey} {r : Repetition}
    (h : e.Awaits job key r) (now t : Instant) (hj : ¬ e.store.Jammed now)
    (ht : t ∈ e.awaited? job) (hd : t ≤ now) :
    fireTimes job (e.call (.acquire now)).1 = [t] ∧
      (e.call (.acquire now)).2.awaited? job = r.next? t := by
  obtain ⟨⟨d, p⟩, hx, rfl⟩ := Option.map_eq_some_iff.mp ht
  have htm := h.timing_eq d p hx
  obtain ⟨hjam, -⟩ | ⟨-, hf, hn⟩ := e.task?_acquire h.sound now job
  · exact absurd hjam hj
  · constructor
    · simp [fireTimes, hf, Store.firing?, hx, hd]
    · simp [awaited?, hn, hx, p.advance?_of_le now hd, Pending.next?, htm, Function.comp_def]

theorem Awaits.gone_only_after_last {e : Engine} {job : JobKey} {key : TriggerKey}
    {r : Repetition} (h : e.Awaits job key r) (now t : Instant)
    (hj : ¬ e.store.Jammed now) (ht : t ∈ e.awaited? job) (hd : t ≤ now)
    (hgone : job ∉ (e.call (.acquire now)).2.store.jobs.keys) :
    IsGreatest r.instants t ∨ ¬ (t + r.interval).InRange := by
  have hs := e.sound_call h.sound (.acquire now)
  apply r.isGreatest_of_next?_eq_none t (h.mem_instants t ht)
  rw [← (h.fires_due now t hj ht hd).2, awaited?, hs.task?_of_notMem job hgone]
  rfl

theorem Awaits.gone_after_last {e : Engine} {job : JobKey} {key : TriggerKey} {r : Repetition}
    (h : e.Awaits job key r) (now : Instant) (b : Bundle) (hb : b ∈ (e.call (.acquire now)).1)
    (hj : b.detail.key = job) (hg : IsGreatest r.instants b.scheduledAt) :
    job ∈ e.store.jobs.keys ∧ job ∉ (e.call (.acquire now)).2.store.jobs.keys := by
  have hm : b.scheduledAt ∈ fireTimes job (e.call (.acquire now)).1 :=
    List.mem_map_of_mem (List.mem_filter.mpr ⟨hb, by simpa using hj⟩)
  obtain ⟨ha, ⟨hn, -⟩ | ⟨t, ht, hf, hu⟩⟩ := h.fireTimes_call (.acquire now) trivial
  · rw [hn] at hm
    cases hm
  · obtain rfl : b.scheduledAt = t := by simpa [hf] using hm
    obtain ⟨⟨d, p⟩, hp, -⟩ := Option.map_eq_some_iff.mp ht
    obtain ⟨hd, hpm, rfl⟩ := (h.sound.task?_eq_some_iff job d p).mp hp
    refine ⟨(Table.mem_keys _ _).mpr ⟨d, hd⟩, fun hleft => ?_⟩
    -- a job that is left has its trigger left, which waits for a later instant
    obtain ⟨-, _, -, hc⟩ | ⟨-, hc⟩ := e.acquire_cases h.sound now
    · rw [hc] at hb
      cases hb
    · have hmoves := Pending.moves_advance? now
      have hr := e.store.revised_revise (Pending.advance? now)
      obtain ⟨d', hd'⟩ := (Table.mem_keys _ _).mp hleft
      rw [hc] at hd'
      have hk := ((h.sound.mem_jobs_revise_iff _ hmoves _ d').mp hd').2 _ p hpm rfl
      obtain ⟨q, hq⟩ := (Table.mem_keys _ _).mp hk
      obtain ⟨p', hp', hpq⟩ := (hr.mem_triggers_iff _ q).mp hq
      have he := List.inj_on_of_nodup_map h.sound.triggers_nodup hp' hpm rfl
      cases he
      have haw : q.nextFire ∈ (e.call (.acquire now)).2.awaited? p.trigger.jobKey := by
        have htask := hr.task?_eq h.sound hmoves p.trigger.jobKey
        simp only [awaited?, hc, htask, hp, Option.bind_some, hpq, Option.map_some]
        rfl
      exact absurd (hg.2 (ha.mem_instants _ haw)) (not_le.mpr (hu _ haw).1)

/-- The firings of a repetition that was accepted are instants of its schedule, in order and
each at most once. Without a start between them they are an interval apart, where the clock does not go
back and no trigger is taken out or replaced; and else where no tick panics. A tick fires the instant
that is waited for if it has come, and the job goes with the last one. -/
theorem repetition_keeps_schedule (e e' : Engine) (he : e.Reachable) (host : Host)
    (detail : JobDetail) (trigger : Trigger) (r : Repetition) (first : Instant)
    (hr : trigger.timing = .simple r) (ha : e.schedule host detail trigger = (.ok first, e'))
    (later : List Call) (hl : ∀ c ∈ later, c.Spares detail.key trigger.key) :
    let fired := fireTimes detail.key (e'.calls later).1
    (∀ t ∈ fired, t ∈ r.instants) ∧ fired.Pairwise (· < ·) ∧
      (∀ n, r.repeats = some n → fired.length ≤ n + 1) ∧
      (∀ run stretch rest, later = run ++ stretch ++ rest →
        ((∀ host, .start host ∉ stretch) ∧ (∀ c ∈ stretch, c.Leaves) ∧
            (stretch.filterMap Call.clock?).Pairwise (· ≤ ·)) ∨
          (e'.calls run).2.Undisturbed stretch →
        (fireTimes detail.key ((e'.calls run).2.calls stretch).1).IsChain
          fun t u : Instant => u = t + r.interval) ∧
      e'.awaited? detail.key = some first ∧
      ∀ run now rest, later = run ++ .acquire now :: rest →
        let before := (e'.calls run).2
        let after := (before.call (.acquire now)).2
        (∀ b ∈ (before.call (.acquire now)).1, b.detail.key = detail.key →
          IsGreatest r.instants b.scheduledAt →
            detail.key ∈ before.store.jobs.keys ∧ detail.key ∉ after.store.jobs.keys) ∧
          (¬ before.store.Jammed now → ∀ t ∈ before.awaited? detail.key, t ≤ now →
            fireTimes detail.key (before.call (.acquire now)).1 = [t] ∧
              (detail.key ∉ after.store.jobs.keys →
                IsGreatest r.instants t ∨ ¬ (t + r.interval).InRange)) := by
  intro fired
  obtain ⟨hw, haw⟩ := awaits_of_schedule e e' he.sound host detail trigger r first hr ha
  obtain ⟨hmem, hlt⟩ := hw.fireTimes_calls later hl
  refine ⟨fun t ht => (hmem t ht).1, hlt, fun n hn => ?_, ?_, haw, ?_⟩
  · exact r.length_le_of_subset_instants n hn fired (hlt.imp fun h => ne_of_lt h)
      fun t ht => (hmem t ht).1
  · rintro run stretch rest rfl hs
    have hrun := hw.calls run fun c hc => hl c (by simp [hc])
    have hspares (c : Call) (hc : c ∈ stretch) : c.Spares detail.key trigger.key := hl c (by simp [hc])
    obtain ⟨hs, hleaves, hclock⟩ | hs := hs
    · exact (hrun.fireTimes_leaves stretch hspares hleaves hclock hs).2
    · exact (hrun.fireTimes_stretch stretch hspares hs).2
  · rintro run now rest rfl before after
    have hrun := hw.calls run fun c hc => hl c (by simp [hc])
    constructor
    · intro b hb hj hg
      exact hrun.gone_after_last now b hb hj hg
    · intro hjam t ht hd
      exact ⟨(hrun.fires_due now t hjam ht hd).1, hrun.gone_only_after_last now t hjam ht hd⟩

/-- An instant is left out where the tick that was to fire it panicked for a job that is deleted
later. -/
example : (Expression.parse "* * * * * *").toOption.map (fun x =>
    let cs := ofTwo (.simple ⟨1893456000000, 1000, none⟩) x ++ [.acquire 1893456000000,
      .acquire Instant.latest, .delete ⟨"second", "Reports"⟩, .acquire Instant.latest]
    fireTimes ⟨"first", "Reports"⟩ ((fresh "main" .single).calls cs).1) =
      some [1893456000000, 1893456002000] := by
  decide +kernel

/-- Three firings of a repetition that is ticked too early, late, and over and over. -/
theorem repetition_keeps_schedule_thrice :
    let detail := JobDetail.ofMethod "Reports" "daily"
    let trigger : Trigger := ⟨⟨"daily", "Reports"⟩, detail.key, .simple ⟨1000, 1000, some 2⟩⟩
    let e := (fresh "main" .single).schedule ⟨0, true⟩ detail trigger
    let later := [.start ⟨0, true⟩, .acquire 500, .acquire 5000, .acquire 5000, .standby,
      .acquire 5000, .acquire 6000]
    let fired := fireTimes detail.key (e.2.calls later).1
    fired = [1000, 2000, 3000] ∧ fired.Pairwise (· < ·) ∧ fired.length ≤ 2 + 1 := by
  intro detail trigger e later fired
  have h := repetition_keeps_schedule (fresh "main" .single) e.2 ⟨"main", .single, [], rfl⟩ ⟨0, true⟩
    detail trigger ⟨1000, 1000, some 2⟩ 1000 rfl rfl later (by simp [later, Call.Spares])
  exact ⟨by decide +kernel, h.2.1, h.2.2.1 2 rfl⟩

end Engine

end CronTasks.Trigger
