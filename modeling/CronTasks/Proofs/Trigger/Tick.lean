import CronTasks.Proofs.Trigger.Resume

namespace CronTasks.Trigger

open Calendar Cron

namespace Store

/-- What a tick fires, and what it leaves of a store. -/
structure Ticked (now : Instant) (s : Store) (fired : List Bundle) (s' : Store) : Prop where
  fires : ∀ k p, (k, p) ∈ s.triggers → ∃ d, (p.trigger.jobKey, d) ∈ s.jobs ∧
    fired.filter (·.trigger.key == k) =
      if p.nextFire ≤ now then [⟨d, p.trigger, now, p.nextFire⟩] else []
  fires_only : ∀ b ∈ fired, b.trigger.key ∈ s.triggers.keys
  keys_subset : ∀ k ∈ s'.triggers.keys, k ∈ s.triggers.keys
  waits : ∀ k p, (k, p) ∈ s.triggers → now < p.nextFire → s'.triggers.get? k = some p
  moves : ∀ k p t, (k, p) ∈ s.triggers → p.nextFire ≤ now → p.following? now = .ok (some t) →
    s'.triggers.get? k = some { p with nextFire := t }
  drops : ∀ k p, (k, p) ∈ s.triggers →
    (k ∉ s'.triggers.keys ↔ p.nextFire ≤ now ∧ p.following? now = .ok none)
  jobs : ∀ job d, (job, d) ∈ s'.jobs ↔ (job, d) ∈ s.jobs ∧
    ∀ k p, (k, p) ∈ s.triggers → p.trigger.jobKey = job → k ∈ s'.triggers.keys

/-- What a tick that panics leaves of a store: all jobs and triggers are there, though some that were
due may wait for their next fire time. -/
structure HalfTicked (now : Instant) (s s' : Store) : Prop where
  jobs : s'.jobs = s.jobs
  keys : s'.triggers.keys.Perm s.triggers.keys
  triggers : ∀ k p, (k, p) ∈ s.triggers → s'.triggers.get? k = some p ∨
    p.nextFire ≤ now ∧ ∃ t, p.following? now = .ok (some t) ∧
      s'.triggers.get? k = some { p with nextFire := t }

theorem following?_of_not_jammed {s : Store} {now : Instant} (h : ¬ s.Jammed now) (k : TriggerKey)
    (p : Pending) (hp : (k, p) ∈ s.triggers) (hle : p.nextFire ≤ now) :
    p.following? now = .ok (p.next? now) :=
  Pending.following?_of_not_panics fun hpanic => h ⟨k, p, hp, hle, hpanic⟩

theorem Sound.filter_firings_key {s : Store} (hs : s.Sound) (now : Instant) (key : TriggerKey) :
    (s.firings now).filter (·.trigger.key == key) =
      ((s.triggers.get? key).bind (s.bundle? now)).toList := by
  have hb : ∀ e ∈ s.triggers, ∀ b, s.bundle? now e.2 = some b →
      (b.trigger.key == key) = (e.1 == key) := by
    intro e he b hb
    unfold bundle? at hb
    split at hb
    · obtain ⟨d, -, rfl⟩ := Option.map_eq_some_iff.mp hb
      rw [hs.trigger_key e he]
    · cases hb
  refine (Table.filter_filterMap s.triggers (fun e => s.bundle? now e.2) _ _ hb).trans ?_
  rw [Table.filter_eq_toList_find? s.triggers (·.1) hs.triggers_nodup, Table.find?_key]
  cases s.triggers.get? key with
  | none => rfl
  | some p => cases hp : s.bundle? now p <;> simp [hp]

theorem Sound.ticked {s : Store} (hs : s.Sound) (now : Instant) (hfree : ¬ s.Jammed now) :
    s.Ticked now (s.firings now) (s.revise (Pending.advance? now)) := by
  have hr := s.revised_revise (Pending.advance? now)
  have hmoves := Pending.moves_advance? now
  have hget (k : TriggerKey) (p : Pending) (hp : (k, p) ∈ s.triggers) :
      (s.revise (Pending.advance? now)).triggers.get? k = p.advance? now := by
    rw [hr.get?_triggers hs hmoves, hs.get?_triggers k p hp]
    rfl
  refine ⟨fun k p hp => ?_, fun b hb => ?_, hr.keys_subset, fun k p hp hlt => ?_,
    fun k p t hp hle ht => ?_, fun k p hp => ?_, hs.mem_jobs_revise_iff _ hmoves⟩
  · obtain ⟨d, hd⟩ := hs.task?_of_trigger k p hp
    have hj := ((hs.task?_eq_some_iff _ d p).mp hd).1
    refine ⟨d, hj, ?_⟩
    rw [hs.filter_firings_key, hs.get?_triggers k p hp, Option.bind_some, bundle?,
      (Table.get?_eq_some_iff _ hs.jobs_nodup _ d).mpr hj]
    split <;> rfl
  · by_contra hn
    have hf := hs.filter_firings_key now b.trigger.key
    rw [(Table.get?_eq_none_iff _ _).mpr hn] at hf
    exact List.filter_eq_nil_iff.mp hf b hb (beq_self_eq_true _)
  · rw [hget k p hp, p.advance?_of_lt now hlt]
  · rw [following?_of_not_jammed hfree k p hp hle, Except.ok.injEq] at ht
    rw [hget k p hp, p.advance?_of_le now hle, ht]
    rfl
  · rw [← Table.get?_eq_none_iff, hget k p hp, p.advance?_eq_none_iff]
    refine and_congr_right fun hle => ?_
    rw [following?_of_not_jammed hfree k p hp hle, Except.ok.injEq]

theorem Sound.halfTicked {s : Store} (hs : s.Sound) (now : Instant) (keys : List TriggerKey)
    (hk : ∀ k p, (k, p) ∈ s.triggers → k ∈ keys → ¬ p.Jammed now) :
    s.HalfTicked now (s.alter (Pending.among keys fun p => some (p.moved now))) := by
  have hr := s.revised_alter (Pending.among keys fun p => some (p.moved now))
  refine ⟨rfl, ?_, fun k p hp => ?_⟩
  · have hsome (e : TriggerKey × Pending) : ∃ q,
        e.2.among keys (fun p => some (p.moved now)) = some q := by
      unfold Pending.among
      split
      · exact ⟨_, rfl⟩
      · exact ⟨_, rfl⟩
    choose g hg using hsome
    simp only [alter, Table.revise, hg, Option.map_some, List.filterMap_eq_map', Table.keys,
      List.map_map]
    exact List.Perm.refl _
  · have hget := hr.get?_triggers hs ((Pending.moves_moved now).among keys) k
    rw [hs.get?_triggers k p hp, Option.bind_some, Pending.among, hs.trigger_key _ hp] at hget
    by_cases hmem : k ∈ keys
    · rw [if_pos hmem] at hget
      by_cases hle : p.nextFire ≤ now
      · have hno : ¬ p.trigger.timing.Panics now := fun hpanic => hk k p hp hmem ⟨hle, hpanic⟩
        rw [Pending.moved, p.advance?_of_le now hle] at hget
        rw [Pending.following?_of_not_panics hno]
        cases ht : p.next? now with
        | none => exact .inl (by simpa [ht] using hget)
        | some t => exact .inr ⟨hle, t, rfl, by simpa [ht] using hget⟩
      · exact .inl (by rw [hget, p.moved_of_lt now (not_le.mp hle)])
    · exact .inl (hget.trans (if_neg hmem))

/-- A store whose triggers stand in another order. -/
def Reordered (s s' : Store) : Prop := s'.jobs = s.jobs ∧ s'.triggers.Perm s.triggers

namespace Reordered

variable {s s' : Store}

theorem sound (h : s.Reordered s') (hs : s.Sound) : s'.Sound := by
  have hr : s.Revised some s' :=
    ⟨by simpa [Table.revise] using h.2, h.1 ▸ List.Sublist.refl _, fun _ he _ => h.1 ▸ he⟩
  exact hr.sound hs Pending.moves_some

theorem jammed_iff (h : s.Reordered s') (now : Instant) : s'.Jammed now ↔ s.Jammed now := by
  simp only [Jammed, h.2.mem_iff]

theorem firings (h : s.Reordered s') (now : Instant) : (s'.firings now).Perm (s.firings now) := by
  have hb : s'.bundle? now = s.bundle? now := by
    funext p
    rw [bundle?, h.1, bundle?]
  rw [Store.firings, hb]
  exact h.2.filterMap _

theorem hasTrigger (h : s.Reordered s') (job : JobKey) : s'.hasTrigger job = s.hasTrigger job :=
  h.2.any_eq

theorem alter (h : s.Reordered s') (f : Pending → Option Pending) :
    (s.alter f).Reordered (s'.alter f) :=
  ⟨h.1, h.2.filterMap _⟩

theorem revise (h : s.Reordered s') (f : Pending → Option Pending) :
    (s.revise f).Reordered (s'.revise f) := by
  refine ⟨?_, h.2.filterMap _⟩
  simp only [Store.revise, h.hasTrigger, (h.alter f).hasTrigger, h.1]

theorem halfTicked (h : s.Reordered s') {now : Instant} {t : Store}
    (ht : s'.HalfTicked now t) : s.HalfTicked now t :=
  ⟨ht.jobs.trans h.1, ht.keys.trans (h.2.map _), fun k p hp => ht.triggers k p (h.2.mem_iff.mpr hp)⟩

end Reordered

/-- In whatever order the triggers are visited, a tick fires each trigger that is due once, moves it
on or drops it with its job, and leaves the others as they are. Every order leaves the same store and
the same firings, up to their order. Only in the last second a tick panics, if an expression is due:
then it fires nothing, and which of the repetitions that are due have moved on depends on the order. -/
theorem tick_same_in_any_order (s : Store) (h : s.Reachable) (now : Instant) (s' : Store)
    (ho : s.Reordered s') :
    (s.Jammed now → ∃ t t', s.acquire now = (.error .overflow, t) ∧
        s'.acquire now = (.error .overflow, t') ∧ s.HalfTicked now t ∧ s.HalfTicked now t') ∧
      (¬ s.Jammed now → ∃ fired fired' t t', s.acquire now = (.ok fired, t) ∧
        s'.acquire now = (.ok fired', t') ∧ t.Reordered t' ∧ fired'.Perm fired ∧
        s.Ticked now fired t) := by
  have hs := h.sound
  have hs' := ho.sound hs
  constructor
  · intro hj
    obtain ⟨keys, hk, ha⟩ := hs.acquire_of_jammed now hj
    obtain ⟨keys', hk', ha'⟩ := hs'.acquire_of_jammed now ((ho.jammed_iff now).mpr hj)
    exact ⟨_, _, ha, ha', hs.halfTicked now keys hk, ho.halfTicked (hs'.halfTicked now keys' hk')⟩
  · intro hj
    have ha := hs.acquire_of_not_jammed now hj
    have ha' := hs'.acquire_of_not_jammed now (mt (ho.jammed_iff now).mp hj)
    exact ⟨_, _, _, _, ha, ha', ho.revise _, ho.firings now, hs.ticked now hj⟩

/-- Repetitions that are due with an instant left, due for the last time, and not due. -/
theorem tick_same_backwards :
    let job (name : String) (r : Repetition) : Engine.Call :=
      .schedule ⟨0, true⟩ (.ofMethod "Reports" name)
        ⟨⟨name, "Reports"⟩, ⟨name, "Reports"⟩, .simple r⟩
    let s := ((Engine.fresh "main" .single).calls [job "hourly" ⟨1000, 3600000, none⟩,
      job "once" ⟨1000, 0, none⟩, job "later" ⟨5000, 0, none⟩]).2.store
    let s' : Store := { s with triggers := s.triggers.reverse }
    s.Reordered s' ∧ ∃ fired fired' t t', s.acquire 2000 = (.ok fired, t) ∧
      s'.acquire 2000 = (.ok fired', t') ∧ t.Reordered t' ∧ fired'.Perm fired ∧
      s.Ticked 2000 fired t ∧
      fired'.map (fun b => (b.detail.key.name, b.scheduledAt)) = [("once", 1000), ("hourly", 1000)] ∧
      t'.triggers.map (fun x => (x.1.name, x.2.nextFire)) = [("later", 5000), ("hourly", 3601000)] ∧
      t'.jobs.keys.map (·.name) = ["hourly", "later"] := by
  intro job s s'
  have ho : s.Reordered s' := ⟨rfl, List.reverse_perm _⟩
  have hfree : ¬ s.Jammed 2000 := by
    rintro ⟨-, -, -, -, hn, -⟩
    cases hn
  obtain ⟨fired, fired', t, t', ha, ha', hr, hp, hk⟩ :=
    (tick_same_in_any_order s ⟨_, ⟨"main", .single, _, rfl⟩, rfl⟩ 2000 s' ho).2 hfree
  have hshown : ((s'.acquire 2000).1.toOption.map fun fired =>
      fired.map fun b => (b.detail.key.name, b.scheduledAt),
        (s'.acquire 2000).2.triggers.map fun x => (x.1.name, x.2.nextFire),
        (s'.acquire 2000).2.jobs.keys.map (·.name)) =
      (some [("once", 1000), ("hourly", 1000)], [("later", 5000), ("hourly", 3601000)],
        ["hourly", "later"]) := by
    decide +kernel
  rw [ha'] at hshown
  obtain ⟨hf, hts, hj⟩ : _ ∧ _ ∧ _ := by simpa [Except.toOption] using hshown
  exact ⟨ho, fired, fired', t, t', ha, ha', hr, hp, hk, hf, hts, hj⟩

theorem jammed_engineOf (x : Expression) (h : x.next? 1893456000000 none = .ok (some 1893456001000)) :
    let s := (engineOf 1893456000000 x).store
    s.Reachable ∧ s.Jammed Instant.latest ∧
      ∃ k p, (k, p) ∈ s.triggers ∧ p.nextFire ≤ Instant.latest := by
  have hm := triggers_engineOf 1893456000000 1893456001000 x (by decide) h ▸
    List.mem_singleton_self _
  have hd : (1893456001000 : Instant) ≤ Instant.latest := by decide
  exact ⟨⟨_, ⟨"main", .single, [.schedule ⟨1893456000000, true⟩ _ _], rfl⟩, rfl⟩,
    ⟨_, _, hm, hd, by decide, x, none, rfl⟩, _, _, hm, hd⟩

/-- In the last second a tick fires nothing, though an expression is centuries late. -/
theorem tick_panics_in_the_last_second : ∃ x, Expression.parse "* * * * * *" = .ok x ∧
    let s := (engineOf 1893456000000 x).store
    s.Reachable ∧ (s.acquire Instant.latest).1 = .error .overflow ∧
      ∃ k p, (k, p) ∈ s.triggers ∧ p.nextFire ≤ Instant.latest := by
  obtain ⟨x, hx, hxn⟩ := parse_every_second
  obtain ⟨hr, hj, hd⟩ := jammed_engineOf x hxn
  obtain ⟨_, -, ha⟩ := hr.sound.acquire_of_jammed Instant.latest hj
  exact ⟨x, hx, hr, by rw [ha], hd⟩

end Store

end CronTasks.Trigger
