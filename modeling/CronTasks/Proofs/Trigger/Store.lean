import CronTasks.Proofs.Table
import CronTasks.Trigger.Store
import Mathlib.Data.List.Perm.Subperm

namespace CronTasks.Trigger

open Calendar

def Pending.unless? (job : JobKey) (p : Pending) : Option Pending :=
  if p.trigger.jobKey = job then none else some p

/-- Changes that keep a trigger, but for its fire time. -/
def Pending.Moves (f : Pending → Option Pending) : Prop :=
  ∀ p q, f p = some q → q.trigger = p.trigger

theorem Pending.moves_some : Moves some := by
  intro p q h
  cases h
  rfl

theorem Pending.moves_unless? (job : JobKey) : Moves (unless? job) := by
  intro p q h
  unfold unless? at h
  split at h
  · cases h
  · cases h
    rfl

namespace Store

def served (s : Store) : List JobKey := s.triggers.map (·.2.trigger.jobKey)

/-- Entries stand under their own keys, and the triggers fire stored jobs, each one once. -/
structure Sound (s : Store) : Prop where
  jobs_nodup : s.jobs.keys.Nodup
  triggers_nodup : s.triggers.keys.Nodup
  detail_key : ∀ e ∈ s.jobs, e.2.key = e.1
  trigger_key : ∀ e ∈ s.triggers, e.2.trigger.key = e.1
  served_nodup : s.served.Nodup
  mem_jobs : ∀ job ∈ s.served, job ∈ s.jobs.keys

/-- No job has lost its trigger. -/
def Whole (s : Store) : Prop := ∀ job ∈ s.jobs.keys, job ∈ s.served

def pending? (s : Store) (job : JobKey) : Option Pending :=
  (s.triggers.find? (·.2.trigger.jobKey == job)).map (·.2)

/-- All that is stored for a job that is fired. -/
def task? (s : Store) (job : JobKey) : Option (JobDetail × Pending) :=
  (s.jobs.get? job).bind fun detail => (s.pending? job).map (detail, ·)

theorem sound_empty : empty.Sound where
  jobs_nodup := List.nodup_nil
  triggers_nodup := List.nodup_nil
  detail_key := by simp [empty]
  trigger_key := by simp [empty]
  served_nodup := List.nodup_nil
  mem_jobs := by simp [empty, served]

theorem whole_empty : empty.Whole := by simp [Whole, empty, Table.keys]

theorem hasTrigger_iff (s : Store) (job : JobKey) : s.hasTrigger job = true ↔ job ∈ s.served := by
  simp [hasTrigger, served]

theorem mem_served_of_mem (s : Store) (k : TriggerKey) (p : Pending) (h : (k, p) ∈ s.triggers) :
    p.trigger.jobKey ∈ s.served :=
  List.mem_map_of_mem (f := (·.2.trigger.jobKey)) h

theorem Sound.get?_triggers {s : Store} (h : s.Sound) (k : TriggerKey) (p : Pending)
    (hp : (k, p) ∈ s.triggers) : s.triggers.get? k = some p :=
  (Table.get?_eq_some_iff _ h.triggers_nodup k p).mpr hp

theorem Sound.pending?_eq_some_iff {s : Store} (h : s.Sound) (job : JobKey) (p : Pending) :
    s.pending? job = some p ↔ (p.trigger.key, p) ∈ s.triggers ∧ p.trigger.jobKey = job := by
  constructor
  · intro hp
    obtain ⟨⟨k, q⟩, hf, rfl⟩ := Option.map_eq_some_iff.mp hp
    have hm := List.mem_of_find?_eq_some hf
    have hj := List.find?_some hf
    exact ⟨h.trigger_key _ hm ▸ hm, by simpa using hj⟩
  · rintro ⟨hm, rfl⟩
    cases hf : s.triggers.find? (·.2.trigger.jobKey == p.trigger.jobKey) with
    | none => exact absurd (by simp) (List.find?_eq_none.mp hf _ hm)
    | some e =>
      have hj : e.2.trigger.jobKey = p.trigger.jobKey := by simpa using List.find?_some hf
      have he := List.inj_on_of_nodup_map h.served_nodup (List.mem_of_find?_eq_some hf) hm hj
      simp [pending?, hf, he]

theorem Sound.task?_eq_some_iff {s : Store} (h : s.Sound) (job : JobKey) (d : JobDetail)
    (p : Pending) : s.task? job = some (d, p) ↔
      (job, d) ∈ s.jobs ∧ (p.trigger.key, p) ∈ s.triggers ∧ p.trigger.jobKey = job := by
  rw [← h.pending?_eq_some_iff, ← Table.get?_eq_some_iff s.jobs h.jobs_nodup]
  simp only [task?, Option.bind_eq_some_iff, Option.map_eq_some_iff, Prod.mk.injEq]
  grind

theorem Sound.task?_of_trigger {s : Store} (h : s.Sound) (k : TriggerKey) (p : Pending)
    (hm : (k, p) ∈ s.triggers) : ∃ d, s.task? p.trigger.jobKey = some (d, p) := by
  obtain ⟨d, hd⟩ := (Table.mem_keys s.jobs _).mp (h.mem_jobs _ (s.mem_served_of_mem k p hm))
  have hk := h.trigger_key _ hm
  exact ⟨d, (h.task?_eq_some_iff _ d p).mpr ⟨hd, hk ▸ hm, rfl⟩⟩

theorem Sound.task?_eq_none_iff {s : Store} (h : s.Sound) (job : JobKey) :
    s.task? job = none ↔ job ∉ s.served := by
  constructor
  · intro hn hj
    obtain ⟨⟨k, p⟩, hm, rfl⟩ := List.mem_map.mp hj
    obtain ⟨d, hd⟩ := h.task?_of_trigger k p hm
    cases hn.symm.trans hd
  · intro hj
    rw [Option.eq_none_iff_forall_ne_some]
    rintro ⟨d, p⟩ hd
    obtain ⟨-, hm, rfl⟩ := (h.task?_eq_some_iff job d p).mp hd
    exact hj (s.mem_served_of_mem _ p hm)

theorem Sound.task?_of_notMem {s : Store} (h : s.Sound) (job : JobKey) (hj : job ∉ s.jobs.keys) :
    s.task? job = none :=
  (h.task?_eq_none_iff job).mpr fun hs => hj (h.mem_jobs job hs)

theorem Whole.mem_served_iff {s : Store} (h : s.Whole) (hs : s.Sound) (job : JobKey) :
    job ∈ s.served ↔ job ∈ s.jobs.keys :=
  ⟨hs.mem_jobs job, h job⟩

theorem Sound.triggersOf_eq {s : Store} (h : s.Sound) (job : JobKey) :
    s.triggersOf job = ((s.task? job).map (·.2.trigger)).toList := by
  have hf := Table.filter_eq_toList_find? s.triggers (·.2.trigger.jobKey) h.served_nodup job
  have hm : (s.triggers.map (·.2.trigger)).filter (·.jobKey == job) =
      (s.pending? job).toList.map (·.trigger) := by
    rw [List.filter_map]
    simp only [Function.comp_def, hf, pending?]
    cases s.triggers.find? (·.2.trigger.jobKey == job) <;> rfl
  rw [triggersOf, hm]
  cases hp : s.pending? job with
  | none => simp [task?, hp]
  | some p =>
    obtain ⟨hmem, hj⟩ := (h.pending?_eq_some_iff job p).mp hp
    obtain ⟨d, hd⟩ := h.task?_of_trigger p.trigger.key p hmem
    rw [hj] at hd
    simp [hd]

/-- A store after its triggers were changed or dropped one by one. They may stand in another order,
and jobs may be gone that none of them fires. -/
structure Revised (f : Pending → Option Pending) (s s' : Store) : Prop where
  triggers : s'.triggers.Perm (s.triggers.revise f)
  jobs_sublist : s'.jobs.Sublist s.jobs
  stays : ∀ e ∈ s.jobs, e.1 ∈ s'.served → e ∈ s'.jobs

namespace Revised

variable {f : Pending → Option Pending} {s s' : Store}

theorem mem_triggers_iff (h : s.Revised f s') (k : TriggerKey) (q : Pending) :
    (k, q) ∈ s'.triggers ↔ ∃ p, (k, p) ∈ s.triggers ∧ f p = some q :=
  h.triggers.mem_iff.trans (Table.mem_revise f s.triggers k q)

theorem keys_subset (h : s.Revised f s') : ∀ k ∈ s'.triggers.keys, k ∈ s.triggers.keys := by
  intro k hk
  obtain ⟨q, hq⟩ := (Table.mem_keys _ k).mp hk
  obtain ⟨p, hp, -⟩ := (h.mem_triggers_iff k q).mp hq
  exact (Table.mem_keys _ k).mpr ⟨p, hp⟩

theorem served_subperm (h : s.Revised f s') (hf : Pending.Moves f) : s'.served.Subperm s.served :=
  (h.triggers.map _).subperm.trans
    (Table.map_revise_sublist f (·.2.trigger.jobKey) (·.2.trigger.jobKey)
      (fun _ p q h => by rw [hf p q h]) _).subperm

theorem sound (h : s.Revised f s') (hs : s.Sound) (hf : Pending.Moves f) : s'.Sound where
  jobs_nodup := hs.jobs_nodup.sublist (h.jobs_sublist.map _)
  triggers_nodup :=
    (h.triggers.map _).nodup_iff.mpr (hs.triggers_nodup.sublist (Table.keys_revise_sublist f _))
  detail_key := fun e he => hs.detail_key e (h.jobs_sublist.subset he)
  trigger_key := by
    rintro ⟨k, q⟩ he
    obtain ⟨p, hm, hq⟩ := (h.mem_triggers_iff k q).mp he
    rw [hf p q hq]
    exact hs.trigger_key _ hm
  served_nodup := by
    obtain ⟨l, hperm, hsub⟩ := h.served_subperm hf
    exact hperm.nodup_iff.mp (hs.served_nodup.sublist hsub)
  mem_jobs := by
    intro job hj
    obtain ⟨d, hd⟩ := (Table.mem_keys s.jobs job).mp
      (hs.mem_jobs job ((h.served_subperm hf).subset hj))
    exact (Table.mem_keys _ job).mpr ⟨d, h.stays (job, d) hd hj⟩

theorem get?_triggers (h : s.Revised f s') (hs : s.Sound) (hf : Pending.Moves f) (k : TriggerKey) :
    s'.triggers.get? k = (s.triggers.get? k).bind f := by
  apply Option.ext
  intro q
  rw [Table.get?_eq_some_iff _ (h.sound hs hf).triggers_nodup, h.mem_triggers_iff,
    Option.bind_eq_some_iff]
  simp only [Table.get?_eq_some_iff _ hs.triggers_nodup]

/-- A change of the triggers changes what is stored for each job on its own. -/
theorem task?_eq (h : s.Revised f s') (hs : s.Sound) (hf : Pending.Moves f) (job : JobKey) :
    s'.task? job = (s.task? job).bind fun x => (f x.2).map (x.1, ·) := by
  apply Option.ext
  intro ⟨d, q⟩
  simp only [(h.sound hs hf).task?_eq_some_iff, Option.bind_eq_some_iff, Option.map_eq_some_iff,
    Prod.mk.injEq, h.mem_triggers_iff]
  constructor
  · rintro ⟨hd, ⟨p, hm, hq⟩, rfl⟩
    have hp := hf p q hq
    refine ⟨(d, p), (hs.task?_eq_some_iff _ d p).mpr ⟨h.jobs_sublist.subset hd, ?_, ?_⟩,
      q, hq, rfl, rfl⟩
    · rwa [← hp]
    · rw [hp]
  · rintro ⟨⟨d, p⟩, ht, _, hq, rfl, rfl⟩
    obtain ⟨hd, hm, rfl⟩ := (hs.task?_eq_some_iff job d p).mp ht
    have hp := hf p _ hq
    refine ⟨h.stays _ hd ?_, ⟨p, by rwa [hp], hq⟩, by rw [hp]⟩
    have hsv := s'.mem_served_of_mem _ _ ((h.mem_triggers_iff _ _).mpr ⟨p, hm, hq⟩)
    rwa [hp] at hsv

end Revised

theorem revised_of_eq (s : Store) : s.Revised some s :=
  ⟨by simp [Table.revise], List.Sublist.refl _, fun _ he _ => he⟩

theorem revised_arranged (s : Store) (rank : TriggerKey → Nat) : s.Revised some (s.arranged rank) :=
  ⟨by simpa [Table.revise, arranged] using List.mergeSort_perm _ _, List.Sublist.refl _,
    fun _ he _ => he⟩

theorem revised_delete (s : Store) (job : JobKey) :
    s.Revised (Pending.unless? job) (s.delete job).2 := by
  have ht : s.triggers.revise (Pending.unless? job) =
      s.triggers.filter fun e => e.2.trigger.jobKey != job := by
    rw [← List.filterMap_eq_filter]
    apply List.filterMap_congr
    intro e _
    by_cases he : e.2.trigger.jobKey = job <;> simp [Pending.unless?, Option.guard, he]
  refine ⟨by rw [ht]; rfl, List.filter_sublist, fun e he hs => List.mem_filter.mpr ⟨he, ?_⟩⟩
  obtain ⟨x, hx, hj⟩ := List.mem_map.mp hs
  rw [← hj]
  exact (List.mem_filter.mp hx).2

theorem Whole.delete {s : Store} (h : s.Whole) (job : JobKey) : (s.delete job).2.Whole := by
  intro j hj
  rw [Store.delete, Table.keys_erase, List.mem_filter] at hj
  obtain ⟨x, hx, rfl⟩ := List.mem_map.mp (h j hj.1)
  exact List.mem_map.mpr ⟨x, List.mem_filter.mpr ⟨hx, hj.2⟩, rfl⟩

theorem firstFire_eq_ok_iff (now t : Instant) (trigger : Trigger) :
    firstFire now trigger = .ok t ↔
      trigger.timing.first? now = .ok (some t) := by
  unfold firstFire
  split <;> simp_all

/-- All that scheduling can do when it succeeds. -/
theorem schedule_eq_ok_iff (s s' : Store) (now t : Instant) (detail : JobDetail)
    (trigger : Trigger) : s.schedule now detail trigger = .ok (t, s') ↔
      detail.key ∉ s.jobs.keys ∧ trigger.key ∉ s.triggers.keys ∧ firstFire now trigger = .ok t ∧
      s' = ⟨s.jobs ++ [(detail.key, detail)],
        s.triggers ++ [(trigger.key, ⟨{ trigger with jobKey := detail.key }, t⟩)]⟩ := by
  unfold schedule
  by_cases hj : detail.key ∈ s.jobs.keys
  · simp [(Table.contains_iff s.jobs _).mpr hj, hj]
  by_cases hk : trigger.key ∈ s.triggers.keys
  · simp [(Table.contains_eq_false s.jobs _).mpr hj, (Table.contains_iff s.triggers _).mpr hk, hk]
  simp only [(Table.contains_eq_false s.jobs _).mpr hj, (Table.contains_eq_false s.triggers _).mpr hk,
    Bool.false_eq_true, ↓reduceIte, Table.put_of_notMem _ _ _ hj, Table.put_of_notMem _ _ _ hk]
  cases firstFire now trigger <;> simp [hj, hk, eq_comm]
  grind

theorem reschedule_eq_ok_iff (s s' : Store) (now t : Instant) (key : TriggerKey)
    (trigger : Trigger) : s.reschedule now key trigger = .ok (t, s') ↔
      ∃ old, s.triggers.get? key = some old ∧ trigger.key ∉ (s.triggers.erase key).keys ∧
        firstFire now trigger = .ok t ∧
        s' = { s with triggers := s.triggers.erase key ++
          [(trigger.key, ⟨{ trigger with jobKey := old.trigger.jobKey }, t⟩)] } := by
  unfold reschedule
  cases s.triggers.get? key with
  | none => simp
  | some old =>
    have hmem : trigger.key ∈ (s.triggers.erase key).keys ↔
        trigger.key ≠ key ∧ s.triggers.contains trigger.key = true := by
      simp [Table.keys_erase, Table.contains_iff, and_comm]
    by_cases hk : trigger.key ∈ (s.triggers.erase key).keys
    · simp [hmem.mp hk, hk]
    · simp only [if_neg (mt hmem.mpr hk), Table.put_of_notMem _ _ _ hk, Option.some.injEq]
      cases firstFire now trigger <;> simp [hk, eq_comm]
      grind

theorem Sound.schedule {s s' : Store} (h : s.Sound) (now t : Instant) (detail : JobDetail)
    (trigger : Trigger) (hs : s.schedule now detail trigger = .ok (t, s')) : s'.Sound := by
  obtain ⟨hj, hk, -, rfl⟩ := (s.schedule_eq_ok_iff s' now t detail trigger).mp hs
  have hserved : detail.key ∉ s.served := mt (h.mem_jobs _) hj
  refine ⟨Table.nodup_keys_append s.jobs h.jobs_nodup _ _ hj,
    Table.nodup_keys_append s.triggers h.triggers_nodup _ _ hk, ?_, ?_, ?_, ?_⟩
  · intro e he
    obtain he | he := List.mem_append.mp he
    · exact h.detail_key e he
    · simp_all
  · intro e he
    obtain he | he := List.mem_append.mp he
    · exact h.trigger_key e he
    · simp_all
  · have hn := h.served_nodup
    simp only [served, List.map_append, List.map_cons, List.map_nil] at hn hserved ⊢
    exact List.nodup_append_comm.mp (List.nodup_cons.mpr ⟨hserved, hn⟩)
  · intro job
    have hm := h.mem_jobs job
    simp only [served, Table.keys, List.map_append, List.mem_append, List.map_cons, List.map_nil,
      List.mem_singleton] at hm ⊢
    exact Or.imp_left hm

theorem Whole.schedule {s s' : Store} (h : s.Whole) (now t : Instant) (detail : JobDetail)
    (trigger : Trigger) (hs : s.schedule now detail trigger = .ok (t, s')) : s'.Whole := by
  obtain ⟨-, -, -, rfl⟩ := (s.schedule_eq_ok_iff s' now t detail trigger).mp hs
  intro job
  have hm := h job
  simp only [served, Table.keys, List.map_append, List.mem_append, List.map_cons, List.map_nil,
    List.mem_singleton] at hm ⊢
  exact Or.imp_left hm

theorem Sound.task?_schedule {s s' : Store} (h : s.Sound) (now t : Instant) (detail : JobDetail)
    (trigger : Trigger) (hs : s.schedule now detail trigger = .ok (t, s')) (job : JobKey) :
    s'.task? job = if job = detail.key then
        some (detail, ⟨{ trigger with jobKey := detail.key }, t⟩)
      else s.task? job := by
  have h' := h.schedule now t detail trigger hs
  obtain ⟨hj, hk, -, rfl⟩ := (s.schedule_eq_ok_iff s' now t detail trigger).mp hs
  apply Option.ext
  intro ⟨d, p⟩
  rw [h'.task?_eq_some_iff]
  split_ifs with he
  · subst he
    have hd (d : JobDetail) : (detail.key, d) ∉ s.jobs := fun hd =>
      hj ((Table.mem_keys s.jobs _).mpr ⟨d, hd⟩)
    have hp (p : Pending) (hm : (p.trigger.key, p) ∈ s.triggers) :
        p.trigger.jobKey ≠ detail.key := fun he =>
      hj (h.mem_jobs _ (he ▸ s.mem_served_of_mem _ _ hm))
    simp only [List.mem_append, hd, false_or, List.mem_singleton, Prod.mk.injEq, true_and,
      Option.some.injEq]
    constructor
    · rintro ⟨rfl, hm | ⟨-, rfl⟩, he⟩
      · exact absurd he (hp p hm)
      · exact ⟨rfl, rfl⟩
    · rintro ⟨rfl, rfl⟩
      exact ⟨rfl, .inr ⟨rfl, rfl⟩, rfl⟩
  · rw [h.task?_eq_some_iff]
    simp only [List.mem_append, List.mem_singleton, Prod.mk.injEq, he, false_and, or_false]
    refine and_congr_right fun _ => and_congr_left fun hp => or_iff_left ?_
    rintro ⟨-, rfl⟩
    exact he hp.symm

theorem Sound.served_erase {s : Store} (h : s.Sound) (key : TriggerKey) (p : Pending)
    (hp : (key, p) ∈ s.triggers) :
    s.served.Perm (p.trigger.jobKey :: (s.triggers.erase key).map (·.2.trigger.jobKey)) :=
  (Table.perm_cons_erase s.triggers h.triggers_nodup key p hp).map _

theorem Sound.reschedule {s s' : Store} (h : s.Sound) (now t : Instant) (key : TriggerKey)
    (trigger : Trigger) (hs : s.reschedule now key trigger = .ok (t, s')) : s'.Sound := by
  obtain ⟨old, ho, hk, -, rfl⟩ := (s.reschedule_eq_ok_iff s' now t key trigger).mp hs
  have hserved := h.served_erase key old (Table.mem_of_get?_eq_some s.triggers key old ho)
  have hn : (s.triggers.erase key).keys.Nodup := h.triggers_nodup.sublist (List.filter_sublist.map _)
  refine ⟨h.jobs_nodup, Table.nodup_keys_append _ hn _ _ hk, h.detail_key, ?_, ?_, ?_⟩
  · intro e he
    obtain he | he := List.mem_append.mp he
    · exact h.trigger_key e (List.mem_filter.mp he).1
    · simp_all
  · have hn := hserved.nodup_iff.mp h.served_nodup
    simp only [served, List.map_append, List.map_cons, List.map_nil]
    exact List.nodup_append_comm.mp hn
  · intro job hj
    simp only [served, List.map_append, List.map_cons, List.map_nil, List.mem_append,
      List.mem_singleton] at hj
    exact h.mem_jobs job (hserved.mem_iff.mpr (List.mem_cons.mpr hj.symm))

theorem Whole.reschedule {s s' : Store} (h : s.Whole) (hs : s.Sound) (now t : Instant)
    (key : TriggerKey) (trigger : Trigger) (hr : s.reschedule now key trigger = .ok (t, s')) :
    s'.Whole := by
  obtain ⟨old, ho, -, -, rfl⟩ := (s.reschedule_eq_ok_iff s' now t key trigger).mp hr
  have hserved := hs.served_erase key old (Table.mem_of_get?_eq_some s.triggers key old ho)
  intro job hj
  have hm := List.mem_cons.mp (hserved.mem_iff.mp (h job hj))
  simp only [served, List.map_append, List.map_cons, List.map_nil, List.mem_append,
    List.mem_singleton]
  exact hm.symm

theorem Sound.task?_reschedule {s s' : Store} (h : s.Sound) (now t : Instant) (key : TriggerKey)
    (trigger : Trigger) (old : Pending) (ho : s.triggers.get? key = some old)
    (hs : s.reschedule now key trigger = .ok (t, s')) (job : JobKey) :
    s'.task? job = if job = old.trigger.jobKey then
        (s.task? job).map fun x => (x.1, ⟨{ trigger with jobKey := job }, t⟩)
      else s.task? job := by
  have h' := h.reschedule now t key trigger hs
  obtain ⟨old', ho', hk, -, rfl⟩ := (s.reschedule_eq_ok_iff s' now t key trigger).mp hs
  obtain rfl : old = old' := by simpa using ho.symm.trans ho'
  have hm := Table.mem_of_get?_eq_some s.triggers key old ho
  apply Option.ext
  intro ⟨d, p⟩
  rw [h'.task?_eq_some_iff]
  simp only [List.mem_append, List.mem_singleton, Prod.mk.injEq, Table.mem_erase]
  split_ifs with he
  · subst he
    obtain ⟨d', hd'⟩ := h.task?_of_trigger key old hm
    have hd := ((h.task?_eq_some_iff _ d' old).mp hd').1
    have hu (d'' : JobDetail) (hd'' : (old.trigger.jobKey, d'') ∈ s.jobs) : d'' = d' := by
      have := List.inj_on_of_nodup_map h.jobs_nodup hd'' hd rfl
      exact (Prod.mk.inj this).2
    rw [hd']
    simp only [Option.map_some, Option.some.injEq, Prod.mk.injEq]
    constructor
    · rintro ⟨hd'', ⟨hp, hne⟩ | ⟨-, rfl⟩, he⟩
      · have heq := List.inj_on_of_nodup_map h.served_nodup hp hm he
        exact absurd (Prod.mk.inj heq).1 hne
      · exact ⟨(hu d hd'').symm, rfl⟩
    · rintro ⟨rfl, rfl⟩
      exact ⟨hd, .inr ⟨rfl, rfl⟩, rfl⟩
  · rw [h.task?_eq_some_iff]
    refine and_congr_right fun _ => and_congr_left fun hp => ?_
    constructor
    · rintro (⟨hp', -⟩ | ⟨-, rfl⟩)
      · exact hp'
      · exact absurd hp.symm he
    · refine fun hp' => .inl ⟨hp', fun hkey => he ?_⟩
      have heq := List.inj_on_of_nodup_map h.triggers_nodup hp' hm hkey
      rw [← hp, (Prod.mk.inj heq).2]

end Store

end CronTasks.Trigger
