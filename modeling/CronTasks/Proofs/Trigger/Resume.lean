import CronTasks.Proofs.Trigger.Limits
import CronTasks.Proofs.Window

namespace CronTasks.Trigger

open Calendar Cron

namespace Timing

/-- What a trigger waits for is the start of a repetition, or what a search has found. -/
inductive Gives : Timing → Instant → Prop
  | start (r : Repetition) : Gives (.simple r) r.startAt
  | next (t : Timing) (after u : Instant) (h : t.search? after = some u) : Gives t u

/-- Timings of universal time, with their instants. -/
inductive Covers : Timing → Set Instant → Prop
  | simple (r : Repetition) : Covers (.simple r) r.representable
  | cron (x : Expression) (hx : x.Accepted) : Covers (.cron x none) x.instants

theorem gives_of_first? (t : Timing) (now u : Instant) (h : t.first? now = .ok (some u)) :
    t.Gives u := by
  cases t with
  | cron x zone => exact .next _ now u (search?_of_next? h)
  | simple r =>
    have hu := Except.ok.inj h
    split at hu
    · cases hu
      exact .start r
    · exact .next _ now u hu

theorem startAt_le_of_gives (r : Repetition) (u : Instant) (h : Gives (.simple r) u) :
    r.startAt ≤ u := by
  cases h with
  | start => exact le_rfl
  | next _ after _ h =>
    obtain ⟨⟨k, -, -, rfl⟩, -⟩ := r.next?_mem_instants after u h
    lia

theorem Covers.isFirst_search? {t : Timing} {S : Set Instant} (h : t.Covers S) (u now : Instant)
    (hu : t.Gives u) (hle : u ≤ now) (hn : 0 ≤ now) :
    IsFirst (S ∩ Set.Ioi now) (t.search? now) := by
  cases h with
  | simple r =>
    have he : Instant.earliest ≤ 0 := by decide
    exact r.isFirst_next? now (.inl ((startAt_le_of_gives r u hu).trans hle)) (he.trans hn)
  | cron x hx => exact x.isFirst_search? hx.ordered now (yearZero_le_of_nonneg hn)

end Timing

namespace Store

def OnSchedule (s : Store) : Prop := ∀ k p, (k, p) ∈ s.triggers → p.trigger.timing.Gives p.nextFire

theorem OnSchedule.revised {s s' : Store} (h : s.OnSchedule) (f : Pending → Option Pending)
    (hr : s.Revised f s')
    (hf : ∀ p q, p.trigger.timing.Gives p.nextFire → f p = some q →
      q.trigger.timing.Gives q.nextFire) : s'.OnSchedule := by
  intro k q hq
  obtain ⟨p, hp, hpq⟩ := (hr.mem_triggers_iff k q).mp hq
  exact hf p q (h k p hp) hpq

theorem OnSchedule.schedule {s s' : Store} (h : s.OnSchedule) (now t : Instant) (detail : JobDetail)
    (trigger : Trigger) (hs : s.schedule now detail trigger = .ok (t, s')) : s'.OnSchedule := by
  obtain ⟨-, -, hf, rfl⟩ := (s.schedule_eq_ok_iff s' now t detail trigger).mp hs
  intro k p hp
  obtain hp | hp := List.mem_append.mp hp
  · exact h k p hp
  · cases List.mem_singleton.mp hp
    exact trigger.timing.gives_of_first? now t ((firstFire_eq_ok_iff now t trigger).mp hf)

theorem OnSchedule.reschedule {s s' : Store} (h : s.OnSchedule) (now t : Instant) (key : TriggerKey)
    (trigger : Trigger) (hs : s.reschedule now key trigger = .ok (t, s')) : s'.OnSchedule := by
  obtain ⟨old, -, -, hf, rfl⟩ := (s.reschedule_eq_ok_iff s' now t key trigger).mp hs
  intro k p hp
  obtain hp | hp := List.mem_append.mp hp
  · exact h k p (List.mem_filter.mp hp).1
  · cases List.mem_singleton.mp hp
    exact trigger.timing.gives_of_first? now t ((firstFire_eq_ok_iff now t trigger).mp hf)

end Store

namespace Pending

theorem gives_resume? (now : Instant) (p q : Pending) (hp : p.trigger.timing.Gives p.nextFire)
    (hq : p.resume? now = some q) : q.trigger.timing.Gives q.nextFire := by
  unfold resume? at hq
  split at hq
  · cases hq
    exact hp
  · obtain ⟨t, ht, rfl⟩ := Option.map_eq_some_iff.mp hq
    exact .next _ now t ht

theorem gives_advance? (now : Instant) (p q : Pending) (hp : p.trigger.timing.Gives p.nextFire)
    (hq : p.advance? now = some q) : q.trigger.timing.Gives q.nextFire := by
  unfold advance? next? at hq
  split at hq
  · obtain ⟨t, ht, rfl⟩ := Option.map_eq_some_iff.mp hq
    split at ht
    next r hr => exact .next _ p.nextFire t (by rwa [hr])
    next x zone hx => exact .next _ now t (by rwa [hx])
  · cases hq
    exact hp

theorem gives_moved (now : Instant) (p : Pending) (hp : p.trigger.timing.Gives p.nextFire) :
    (p.moved now).trigger.timing.Gives (p.moved now).nextFire := by
  unfold moved
  cases hq : p.advance? now with
  | none => exact hp
  | some q => exact gives_advance? now p q hp hq

theorem gives_among (keys : List TriggerKey) (f : Pending → Option Pending) (p q : Pending)
    (hp : p.trigger.timing.Gives p.nextFire)
    (hf : f p = some q → q.trigger.timing.Gives q.nextFire) (hq : p.among keys f = some q) :
    q.trigger.timing.Gives q.nextFire := by
  unfold among at hq
  split at hq
  · exact hf hq
  · cases hq
    exact hp

end Pending

namespace Engine

theorem Change.gives {f : Pending → Option Pending} (h : Change f) (p q : Pending)
    (hp : p.trigger.timing.Gives p.nextFire) (hq : f p = some q) :
    q.trigger.timing.Gives q.nextFire := by
  cases h with
  | keep =>
    cases hq
    exact hp
  | remove job =>
    unfold Pending.unless? at hq
    split at hq
    · cases hq
    · cases hq
      exact hp
  | resume now => exact p.gives_resume? now q hp hq
  | advance now => exact p.gives_advance? now q hp hq
  | resumeSome now keys => exact p.gives_among keys _ q hp (p.gives_resume? now q hp) hq
  | slip now keys =>
    refine p.gives_among keys _ q hp (fun hq => ?_) hq
    cases hq
    exact p.gives_moved now hp

theorem onSchedule_call (e : Engine) (hs : e.store.Sound) (h : e.store.OnSchedule) (c : Call) :
    (e.call c).2.store.OnSchedule := by
  obtain ⟨now, t, detail, trigger, hc⟩ | ⟨now, t, key, trigger, hc⟩ | ⟨f, hf, hr⟩ :=
    e.store_call_cases hs c
  · exact h.schedule now t detail trigger hc
  · exact h.reschedule now t key trigger hc
  · exact h.revised f hr hf.gives

theorem onSchedule_calls (e : Engine) (hs : e.store.Sound) (h : e.store.OnSchedule)
    (cs : List Call) : (e.calls cs).2.store.OnSchedule := by
  induction cs generalizing e with
  | nil => exact h
  | cons c cs ih => exact ih (e.call c).2 (e.sound_call hs c) (e.onSchedule_call hs h c)

theorem Reachable.onSchedule {e : Engine} (h : e.Reachable) : e.store.OnSchedule := by
  obtain ⟨name, threads, cs, rfl⟩ := h
  exact onSchedule_calls _ Store.sound_empty (fun _ _ h => absurd h List.not_mem_nil) cs

end Engine

namespace Store

/-- Stores that calls can bring about. -/
def Reachable (s : Store) : Prop := ∃ e : Engine, e.Reachable ∧ e.store = s

theorem Reachable.sound {s : Store} (h : s.Reachable) : s.Sound := by
  obtain ⟨e, he, rfl⟩ := h
  exact he.sound

theorem Reachable.onSchedule {s : Store} (h : s.Reachable) : s.OnSchedule := by
  obtain ⟨e, he, rfl⟩ := h
  exact he.onSchedule

/-- One store is what the other becomes after a pause. -/
structure TakenUp (now : Instant) (s s' : Store) : Prop where
  keys_subset : ∀ k ∈ s'.triggers.keys, k ∈ s.triggers.keys
  kept : ∀ k p, (k, p) ∈ s.triggers → now - p.nextFire ≤ 60000 → s'.triggers.get? k = some p
  moved : ∀ k p t, (k, p) ∈ s.triggers → 60000 < now - p.nextFire →
    p.trigger.timing.next? now = .ok (some t) →
      s'.triggers.get? k = some { p with nextFire := t }
  dropped : ∀ k p, (k, p) ∈ s.triggers → (k ∉ s'.triggers.keys ↔
    60000 < now - p.nextFire ∧ p.trigger.timing.next? now = .ok none)
  first_left : ∀ k p S, (k, p) ∈ s.triggers → 60000 < now - p.nextFire →
    p.trigger.timing.Covers S →
      ∃ o, p.trigger.timing.next? now = .ok o ∧ IsFirst (S ∩ Set.Ioi now) o
  jobs : ∀ job d, (job, d) ∈ s'.jobs ↔ (job, d) ∈ s.jobs ∧
    ∃ k p, (k, p) ∈ s.triggers ∧ p.trigger.jobKey = job ∧ k ∈ s'.triggers.keys
  in_time : ∀ k p S, (k, p) ∈ s'.triggers → p.trigger.timing.Covers S → now - p.nextFire ≤ 60000

/-- One store is what a start that panics leaves of the other: all jobs are there, and each trigger
is as it was, or it has been taken up. -/
structure HalfTakenUp (now : Instant) (s s' : Store) : Prop where
  jobs : s'.jobs = s.jobs
  keys_subset : ∀ k ∈ s'.triggers.keys, k ∈ s.triggers.keys
  triggers : ∀ k p, (k, p) ∈ s.triggers → s'.triggers.get? k = some p ∨
    60000 < now - p.nextFire ∧ ∃ o, p.trigger.timing.next? now = .ok o ∧
      s'.triggers.get? k = o.map fun t => { p with nextFire := t }

theorem not_panics_of_not_stuck {s : Store} {now : Instant} (h : ¬ s.Stuck now) (k : TriggerKey)
    (p : Pending) (hp : (k, p) ∈ s.triggers) (hlate : 60000 < now - p.nextFire) :
    ¬ p.trigger.timing.Panics now :=
  fun hpanic => h ⟨k, p, hp, hlate, hpanic⟩

theorem Sound.mem_jobs_resumed_iff {s : Store} (hs : s.Sound) (now : Instant) (job : JobKey)
    (d : JobDetail) : (job, d) ∈ (s.resumed now).jobs ↔ (job, d) ∈ s.jobs ∧
      ∃ k p, (k, p) ∈ s.triggers ∧ p.trigger.jobKey = job ∧ k ∈ (s.resumed now).triggers.keys := by
  have hr : s.Revised (Pending.resume? now) (s.resumed now) := s.revised_dropIdle _
  have hmoves := Pending.moves_resume? now
  constructor
  · intro hj
    have hserved := s.alter (Pending.resume? now) |>.whole_dropIdle job ((Table.mem_keys _ _).mpr ⟨d, hj⟩)
    obtain ⟨⟨k, q⟩, hq, rfl⟩ := List.mem_map.mp hserved
    obtain ⟨p, hp, hpq⟩ := (hr.mem_triggers_iff k q).mp hq
    exact ⟨hr.jobs_sublist.subset hj, k, p, hp, congrArg (·.jobKey) (hmoves p q hpq).symm,
      (Table.mem_keys _ k).mpr ⟨q, hq⟩⟩
  · rintro ⟨hj, k, p, hp, rfl, hk⟩
    obtain ⟨q, hq⟩ := (Table.mem_keys _ k).mp hk
    obtain ⟨p', hp', hpq⟩ := (hr.mem_triggers_iff k q).mp hq
    obtain rfl : p = p' := congrArg Prod.snd (List.inj_on_of_nodup_map hs.triggers_nodup hp hp' rfl)
    refine hr.stays _ hj ?_
    rw [← hmoves p q hpq]
    exact (s.resumed now).mem_served_of_mem k q hq

theorem takenUp_resumed {s : Store} (hs : s.Sound) (ho : s.OnSchedule) (now : Instant) (hn : 0 ≤ now)
    (hfree : ¬ s.Stuck now) : s.TakenUp now (s.resumed now) := by
  have hr : s.Revised (Pending.resume? now) (s.resumed now) := s.revised_dropIdle _
  have hmoves := Pending.moves_resume? now
  have hget (k : TriggerKey) (p : Pending) (hp : (k, p) ∈ s.triggers) :
      (s.resumed now).triggers.get? k = p.resume? now := by
    rw [hr.get?_triggers hs hmoves, hs.get?_triggers k p hp]
    rfl
  have hnext (k : TriggerKey) (p : Pending) (hp : (k, p) ∈ s.triggers)
      (hlate : 60000 < now - p.nextFire) :
      p.trigger.timing.next? now = .ok (p.trigger.timing.search? now) :=
    Timing.next?_of_not_panics (not_panics_of_not_stuck hfree k p hp hlate)
  have hfirst (k : TriggerKey) (p : Pending) (S : Set Instant) (hp : (k, p) ∈ s.triggers)
      (hlate : 60000 < now - p.nextFire) (hS : p.trigger.timing.Covers S) :
      IsFirst (S ∩ Set.Ioi now) (p.trigger.timing.search? now) :=
    hS.isFirst_search? p.nextFire now (ho k p hp) (by lia) hn
  refine ⟨hr.keys_subset, ?_, ?_, ?_, ?_, hs.mem_jobs_resumed_iff now, ?_⟩
  · intro k p hp hle
    rw [hget k p hp, p.resume?_of_le now hle]
  · intro k p t hp hlate ht
    rw [hget k p hp, p.resume?_of_lt now hlate, Timing.search?_of_next? ht]
    rfl
  · intro k p hp
    rw [← Table.get?_eq_none_iff, hget k p hp]
    by_cases hlate : 60000 < now - p.nextFire
    · simp [p.resume?_of_lt now hlate, hnext k p hp hlate, hlate]
    · simp [p.resume?_of_le now (not_lt.mp hlate), hlate]
  · intro k p S hp hlate hS
    exact ⟨_, hnext k p hp hlate, hfirst k p S hp hlate hS⟩
  · intro k q S hq hS
    obtain ⟨p, hp, hpq⟩ := (hr.mem_triggers_iff k q).mp hq
    by_cases hlate : 60000 < now - p.nextFire
    · rw [hmoves p q hpq] at hS
      rw [p.resume?_of_lt now hlate] at hpq
      obtain ⟨t, ht, rfl⟩ := Option.map_eq_some_iff.mp hpq
      have hlt : now < t := (((hfirst k p S hp hlate hS).eq_some_iff t).mp ht).1.2
      lia
    · rw [p.resume?_of_le now (not_lt.mp hlate)] at hpq
      cases hpq
      exact not_lt.mp hlate

theorem halfTakenUp_alter {s : Store} (hs : s.Sound) (now : Instant) (keys : List TriggerKey)
    (hk : ∀ k p, (k, p) ∈ s.triggers → k ∈ keys → ¬ p.Stuck now) :
    s.HalfTakenUp now (s.alter (Pending.among keys (Pending.resume? now))) := by
  have hr := s.revised_alter (Pending.among keys (Pending.resume? now))
  refine ⟨rfl, hr.keys_subset, fun k p hp => ?_⟩
  have hget := hr.get?_triggers hs ((Pending.moves_resume? now).among keys) k
  rw [hs.get?_triggers k p hp, Option.bind_some, Pending.among, hs.trigger_key _ hp] at hget
  by_cases hmem : k ∈ keys
  · rw [if_pos hmem] at hget
    by_cases hlate : 60000 < now - p.nextFire
    · have hno : ¬ p.trigger.timing.Panics now := fun hpanic => hk k p hp hmem ⟨hlate, hpanic⟩
      exact .inr ⟨hlate, _, Timing.next?_of_not_panics hno, hget.trans (p.resume?_of_lt now hlate)⟩
    · exact .inl (hget.trans (p.resume?_of_le now (not_lt.mp hlate)))
  · exact .inl (hget.trans (if_neg hmem))

end Store

namespace Engine

/-- A start out of standby takes the store up where it stands: what is at most a minute late stays,
and the rest moves to the first instant left or is dropped. Only in the last second it panics, if an
expression has to be searched, and without a clock. A start of an engine that runs changes nothing. -/
theorem start_takes_up_store (e : Engine) (he : e.store.Reachable) (host : Host) :
    (host.runtime = false → e.start host = (.error (.error .noRuntime), e)) ∧
      (e.running = true → (e.start host).2 = e) ∧
      (host.runtime = true → e.running = true → (e.start host).1 = .ok ()) ∧
      (host.runtime = true → e.running = false → ∀ p, host.now = .error p →
        e.start host = (.error (.panic p), { e with running := true })) ∧
      ∀ now, host.runtime = true → e.running = false → host.now = .ok now →
        (e.store.Stuck now →
          ∃ s, e.start host = (.error (.panic .overflow), { e with running := true, store := s }) ∧
            e.store.HalfTakenUp now s) ∧
        (¬ e.store.Stuck now →
          ∃ s, e.start host = (.ok (), { e with running := true, timer := true, store := s }) ∧
            e.store.TakenUp now s) := by
  have hs := he.sound
  refine ⟨fun hr => ?_, fun hrun => ?_, fun hr hrun => ?_, fun hr hrun p hp => ?_,
    fun now hr hrun hn => ⟨fun h => ?_, fun h => ?_⟩⟩
  · simp [start, hr]
  · cases hr : host.runtime <;> simp [start, hr, hrun]
  · simp [start, hr, hrun]
  · simp [start, hr, hrun, hp]
  · obtain ⟨keys, hk, hres⟩ := hs.resume_of_stuck now h
    exact ⟨_, by simp [start, hr, hrun, hn, hres], Store.halfTakenUp_alter hs now keys hk⟩
  · have h0 : 0 ≤ now := by
      obtain ⟨h0, -, rfl⟩ := (host.now_eq_ok_iff now).mp hn
      exact h0
    exact ⟨_, by simp [start, hr, hrun, hn, e.store.resume_of_not_stuck now h]; rfl,
      Store.takenUp_resumed hs he.onSchedule now h0 h⟩

/-- Repetitions that are a minute late, and a millisecond more. -/
theorem start_takes_up_store_after_a_minute :
    let job (name : String) (r : Repetition) : Call :=
      .schedule ⟨0, true⟩ (.ofMethod "Reports" name)
        ⟨⟨name, "Reports"⟩, ⟨name, "Reports"⟩, .simple r⟩
    let e := ((fresh "main" .single).calls [job "hourly" ⟨1000000, 3600000, none⟩,
      job "over" ⟨1000000, 0, none⟩, job "late" ⟨1000001, 0, none⟩]).2
    ∃ s, e.start ⟨1060001, true⟩ =
        (.ok (), { e with running := true, timer := true, store := s }) ∧
      e.store.TakenUp 1060001 s ∧
      s.triggers.map (fun x => (x.1.name, x.2.nextFire)) =
        [("hourly", 4600000), ("late", 1000001)] ∧
      s.jobs.keys.map (·.name) = ["hourly", "late"] := by
  intro job e
  have hfree : ¬ e.store.Stuck 1060001 := by
    rintro ⟨-, -, -, -, hn, -⟩
    cases hn
  have h := start_takes_up_store e ⟨e, ⟨"main", .single, _, rfl⟩, rfl⟩ ⟨1060001, true⟩
  obtain ⟨s, hs, hup⟩ := (h.2.2.2.2 1060001 rfl (by decide +kernel) rfl).2 hfree
  have hstore : s = (e.start ⟨1060001, true⟩).2.store := by rw [hs]
  refine ⟨s, hs, hup, ?_, ?_⟩
  · rw [hstore]
    decide +kernel
  · rw [hstore]
    decide +kernel

/-- In the last second a start leaves an expression centuries late. -/
theorem start_panics_in_the_last_second : ∃ x, Expression.parse "* * * * * *" = .ok x ∧
    let e := engineOf 1893456000000 x
    let after := e.start ⟨Instant.latest, true⟩
    e.Reachable ∧ e.running = false ∧ after.1 = .error (.panic .overflow) ∧
      ∃ k p, (k, p) ∈ after.2.store.triggers ∧ p.trigger.timing.Covers x.instants ∧
        60000 < Instant.latest - p.nextFire := by
  obtain ⟨x, hx, hxn⟩ := parse_every_second
  let key : TriggerKey := ⟨"daily", "Reports"⟩
  let p : Pending := ⟨⟨key, ⟨"daily", "Reports"⟩, .cron x none⟩, 1893456001000⟩
  have hs : (engineOf 1893456000000 x).store.triggers = [(key, p)] :=
    triggers_engineOf _ _ x (by decide) hxn
  have hr : (engineOf 1893456000000 x).running = false :=
    congrArg (·.2.running) (schedule_engineOf _ _ x (by decide) hxn)
  have hlate : 60000 < Instant.latest - 1893456001000 := by decide
  have hpanic : p.resumed? Instant.latest = .error .overflow :=
    Pending.resumed?_of_stuck ⟨hlate, by decide, x, none, rfl⟩
  have hres : (engineOf 1893456000000 x).store.resume Instant.latest =
      (.error .overflow, (engineOf 1893456000000 x).store) := by
    generalize (engineOf 1893456000000 x).store = s at hs
    obtain ⟨jobs, triggers⟩ := s
    obtain rfl : triggers = [(key, p)] := hs
    simp [Store.resume, Table.pass, hpanic]
  have hnow : Host.now ⟨Instant.latest, true⟩ = .ok Instant.latest := by decide
  refine ⟨x, hx, ⟨"main", .single, [.schedule ⟨1893456000000, true⟩ _ _], rfl⟩, hr, ?_, key, p, ?_, ?_,
    hlate⟩
  · simp [start, hr, hnow, hres]
  · simp [start, hr, hnow, hres, hs]
  · exact .cron x ⟨_, .inl hx⟩

end Engine

end CronTasks.Trigger
