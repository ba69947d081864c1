import CronTasks.Proofs.Cron.Window
import CronTasks.Proofs.Trigger.Run

namespace CronTasks.Trigger.Engine

open Calendar Cron

def tickOf (job : JobKey) (e : Engine) (now : Instant) : Nat × Engine :=
  (((e.call (.acquire now)).1.filter (·.detail.key == job)).length, (e.call (.acquire now)).2)

/-- The trigger of a job fires by an expression in universal time, unless it is gone. -/
structure Expects (e : Engine) (job : JobKey) (x : Expression) : Prop where
  sound : e.store.Sound
  timing_eq : ∀ d p, e.store.task? job = some (d, p) → p.trigger.timing = .cron x none

theorem not_jammed_of_hasNextSecond (s : Store) (now : Instant) (h : now.hasNextSecond = true) :
    ¬ s.Jammed now := by
  rintro ⟨_, _, -, -, hlast, -⟩
  cases h.symm.trans hlast

theorem length_firing? (e : Engine) (now : Instant) (job : JobKey) :
    (e.store.firing? now job).toList.length =
      if (e.awaited? job).any (· ≤ now) then 1 else 0 := by
  cases h : e.store.task? job with
  | none => simp [Store.firing?, awaited?, h]
  | some x => by_cases hd : x.2.nextFire ≤ now <;> simp [Store.firing?, awaited?, h, hd]

theorem Expects.moved {e e' : Engine} {job : JobKey} {x : Expression} (h : e.Expects job x)
    (hs : e'.store.Sound) (f : Pending → Option Pending) (hf : Pending.Moves f)
    (ht : e'.store.task? job = (e.store.task? job).bind fun y => (f y.2).map (y.1, ·)) :
    e'.Expects job x := by
  refine ⟨hs, fun d q hq => ?_⟩
  obtain ⟨⟨d', p⟩, hp, hy⟩ := Option.bind_eq_some_iff.mp (ht ▸ hq)
  obtain ⟨_, hq', he⟩ := Option.map_eq_some_iff.mp hy
  cases he
  rw [hf p q hq', h.timing_eq d' p hp]

theorem Expects.acquire {e : Engine} {job : JobKey} {x : Expression} (h : e.Expects job x)
    (now : Instant) (hn : now.hasNextSecond = true) :
    let after := (e.call (.acquire now)).2
    after.Expects job x ∧
      ((e.call (.acquire now)).1.filter (·.detail.key == job)).length =
        (if (e.awaited? job).any (· ≤ now) then 1 else 0) ∧
      after.awaited? job =
        if (e.awaited? job).any (· ≤ now) then x.search? now none else e.awaited? job := by
  intro after
  obtain ⟨hj, -⟩ | ⟨-, hf, ht⟩ := e.task?_acquire h.sound now job
  · exact absurd hj (not_jammed_of_hasNextSecond e.store now hn)
  · refine ⟨h.moved (e.sound_call h.sound (.acquire now)) _ (Pending.moves_advance? now) ht,
      by rw [hf, length_firing?], ?_⟩
    cases he : e.store.task? job with
    | none => simp [awaited?, after, ht, he]
    | some y =>
      obtain ⟨d, p⟩ := y
      have htm := h.timing_eq d p he
      by_cases hd : p.nextFire ≤ now <;>
        simp [awaited?, after, ht, he, Pending.advance?, Pending.next?, hd, htm, Function.comp_def]

theorem Expects.acquire_late {e : Engine} {job : JobKey} {x : Expression} (h : e.Expects job x)
    (now : Instant) (hn : now.hasNextSecond = false) :
    (e.call (.acquire now)).1.filter (·.detail.key == job) = [] ∧
      (e.call (.acquire now)).2.store.task? job = e.store.task? job := by
  -- what is due would have to be searched for, and that panics
  have hwaits (d : JobDetail) (p : Pending) (he : e.store.task? job = some (d, p))
      (hfree : ¬ p.Jammed now) : now < p.nextFire := by
    by_contra hd
    exact hfree ⟨not_lt.mp hd, hn, x, none, h.timing_eq d p he⟩
  obtain ⟨-, hf, ht | ⟨d, p, he, hfree, ht⟩⟩ | ⟨hfree, hf, ht⟩ := e.task?_acquire h.sound now job
  · exact ⟨by rw [hf]; rfl, ht⟩
  · refine ⟨by rw [hf]; rfl, ?_⟩
    rw [ht, he, p.moved_of_lt now (hwaits d p he hfree)]
  · rw [hf, ht]
    cases he : e.store.task? job with
    | none => exact ⟨by simp [Store.firing?, he], rfl⟩
    | some y =>
      obtain ⟨d, p⟩ := y
      have hm := ((h.sound.task?_eq_some_iff job d p).mp he).2.1
      have hlt := hwaits d p he fun hj => hfree ⟨_, p, hm, hj⟩
      exact ⟨by simp [Store.firing?, he, hlt], by simp [p.advance?_of_lt now hlt]⟩

theorem waits_of_expects (job : JobKey) (x : Expression) :
    Waits (tickOf job) (·.Expects job x) (·.awaited? job) (x.search? · none) where
  good_tick := by
    intro e now h
    cases hn : now.hasNextSecond with
    | true => exact (h.acquire now hn).1
    | false =>
      refine ⟨e.sound_call h.sound (.acquire now), fun d p hp => h.timing_eq d p ?_⟩
      rw [← (h.acquire_late now hn).2]
      exact hp
  count := fun e now h hn => (h.acquire now hn).2.1
  awaited_tick := fun e now h hn => (h.acquire now hn).2.2
  count_late := fun e now h hn => by simp [tickOf, (h.acquire_late now hn).1]

/-- The ways in which a job comes to be fired by an expression in universal time: with the
instants of the expression, the time of the call, and what ticks fire from then on. -/
inductive Onset : Set Instant → Instant → (List Instant → List Nat) → Prop
  | schedule (e e' : Engine) (he : e.Reachable) (host : Host) (detail : JobDetail)
      (trigger : Trigger) (x : Expression) (hx : x.Accepted)
      (ht : trigger.timing = .cron x none) (first : Instant)
      (ha : e.schedule host detail trigger = (.ok first, e')) :
      Onset x.instants host.clock (tickCounts (tickOf detail.key) e')
  | reschedule (e e' : Engine) (he : e.Reachable) (host : Host) (key : TriggerKey)
      (trigger : Trigger) (x : Expression) (hx : x.Accepted)
      (ht : trigger.timing = .cron x none) (old : Pending)
      (ho : e.store.triggers.get? key = some old) (first : Instant)
      (ha : e.reschedule host key trigger = (.ok first, e')) :
      Onset x.instants host.clock (tickCounts (tickOf old.trigger.jobKey) e')

/-- A job is fired once for every window from the time on at which the first instant of its
trigger was found. -/
theorem counts_of_task? (e : Engine) (hsound : e.store.Sound) (job : JobKey) (d : JobDetail)
    (trigger : Trigger) (x : Expression) (hx : x.Accepted) (ht : trigger.timing = .cron x none)
    (now first : Instant) (hnow : 0 ≤ now) (hf : Store.firstFire now trigger = .ok first)
    (htask : e.store.task? job = some (d, ⟨{ trigger with jobKey := job }, first⟩))
    (ts : List Instant) (hs : (now :: ts).Pairwise (· ≤ ·)) :
    tickCounts (tickOf job) e ts = windowCounts x.instants now ts := by
  have hfirst := (Store.firstFire_eq_ok_iff now first trigger).mp hf
  rw [ht, Timing.first?] at hfirst
  have hn : x.search? now none = some first := Timing.search?_of_next? hfirst
  have he : e.Expects job x := ⟨hsound, fun d p hp => by
    cases htask.symm.trans hp
    exact ht⟩
  refine (waits_of_expects job x).counts_eq x.instants now
    (fun u hu _ => x.isFirst_search? hx.ordered u (yearZero_le_of_nonneg (hnow.trans hu)))
    e he ?_ ts hs
  simpa [awaited?, htask, ← hn] using x.isFirst_search? hx.ordered now (yearZero_le_of_nonneg hnow)

theorem counts_of_onset (S : Set Instant) (t : Instant) (fired : List Instant → List Nat)
    (h : Onset S t fired) (ts : List Instant) (hs : (t :: ts).Pairwise (· ≤ ·)) :
    fired ts = windowCounts S t ts := by
  cases h with
  | schedule e e' he host detail trigger x hx ht first ha =>
    obtain ⟨_, hu⟩ | ⟨now, _, s, hn, hs', hu⟩ := e.schedule_cases host detail trigger
    · cases hu.symm.trans ha
    · cases hu.symm.trans ha
      obtain ⟨hlow, -, rfl⟩ := (host.now_eq_ok_iff now).mp hn
      have htask := he.sound.task?_schedule host.clock first detail trigger hs' detail.key
      rw [if_pos rfl] at htask
      obtain ⟨-, -, hf, -⟩ := (e.store.schedule_eq_ok_iff s host.clock first detail trigger).mp hs'
      exact counts_of_task? _ (he.sound.schedule host.clock first detail trigger hs') _ _ trigger x hx
        ht host.clock first hlow hf htask ts hs
  | reschedule e e' he host key trigger x hx ht old ho first ha =>
    obtain ⟨_, hu⟩ | ⟨now, _, s, hn, hs', hu⟩ := e.reschedule_cases host key trigger
    · cases hu.symm.trans ha
    · cases hu.symm.trans ha
      obtain ⟨hlow, -, rfl⟩ := (host.now_eq_ok_iff now).mp hn
      have htask := he.sound.task?_reschedule host.clock first key trigger old ho hs'
        old.trigger.jobKey
      obtain ⟨d, hd⟩ := he.sound.task?_of_trigger key old
        (Table.mem_of_get?_eq_some e.store.triggers key old ho)
      rw [if_pos rfl, hd, Option.map_some] at htask
      obtain ⟨-, -, -, hf, -⟩ :=
        (e.store.reschedule_eq_ok_iff s host.clock first key trigger).mp hs'
      exact counts_of_task? _ (he.sound.reschedule host.clock first key trigger hs') _ _ trigger x hx
        ht host.clock first hlow hf htask ts hs

end CronTasks.Trigger.Engine
