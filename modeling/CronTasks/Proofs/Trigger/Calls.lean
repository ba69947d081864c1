import CronTasks.Proofs.Key
import CronTasks.Proofs.Methods
import CronTasks.Trigger.Factory
import Mathlib.Data.Finset.Card
import Mathlib.Data.Finset.Filter

namespace CronTasks.Trigger

def MethodJob.key (job : MethodJob) : JobKey := ⟨job.bound.method.name, job.bound.method.type⟩

/-- A job that runs a registered method, under the identity of the key that names it. -/
structure MethodJob.Genuine (r : Registry) (job : MethodJob) : Prop where
  registered : job.bound.Registered r
  identity_eq : job.identity = job.key.identity

theorem checkKey_cases (r : Registry) (key : JobKey) :
    ((Text.blank key.group = true ∨ Text.blank key.name = true) ∧
        ∃ message, checkKey r key = .error (.invalidArgument message)) ∨
      (Text.blank key.group = false ∧ Text.blank key.name = false ∧
        r.hasMethod key.group key.name = false ∧
        ∃ message, checkKey r key = .error (.illegalState message)) ∨
      (r.Resolves key.group key.name ∧ checkKey r key = .ok ()) := by
  unfold checkKey
  cases hg : Text.blank key.group with
  | true => exact .inl ⟨.inl rfl, _, rfl⟩
  | false =>
    cases hn : Text.blank key.name with
    | true => exact .inl ⟨.inr rfl, _, rfl⟩
    | false =>
      cases hm : r.hasMethod key.group key.name with
      | false =>
        refine .inr (.inl ⟨rfl, rfl, rfl, ?_⟩)
        cases r.hasType key.group with
        | false => exact ⟨_, rfl⟩
        | true => exact ⟨_, rfl⟩
      | true =>
        refine .inr (.inr ⟨⟨hg, hn, hm⟩, ?_⟩)
        rw [r.hasType_of_hasMethod key.group key.name hm]
        rfl

theorem checkKey_eq_ok_iff (r : Registry) (key : JobKey) :
    checkKey r key = .ok () ↔ r.Resolves key.group key.name := by
  obtain ⟨hb, message, hc⟩ | ⟨-, -, hm, message, hc⟩ | ⟨hr, hc⟩ := checkKey_cases r key
  · refine iff_of_false (by simp [hc]) fun hr => ?_
    simp [hr.type_shows, hr.name_shows] at hb
  · refine iff_of_false (by simp [hc]) fun hr => ?_
    simp [hr.hasMethod] at hm
  · exact iff_of_true hc hr

namespace Factory

def jobs (f : Factory) : Table String MethodJob := f.cache.revise Slot.job

theorem length_jobs (f : Factory) : f.jobs.length = f.cachedJobs := by
  simp only [jobs, Table.revise, cachedJobs, List.length_filterMap_eq_countP, Option.isSome_map]

theorem slot_setSlot (f : Factory) (identity : String) (slot : Slot) (i : String) :
    (f.setSlot identity slot).slot i = if i = identity then slot else f.slot i := by
  simp only [Factory.slot, setSlot, Table.get?_put]
  split <;> rfl

theorem slot_lock (f : Factory) (identity i : String) : (f.lock identity).slot i =
    if i = identity then { f.slot identity with locked := true } else f.slot i :=
  f.slot_setSlot identity _ i

theorem mem_jobs_iff {f : Factory} (h : f.cache.keys.Nodup) (identity : String) (job : MethodJob) :
    (identity, job) ∈ f.jobs ↔ (f.slot identity).job = some job := by
  rw [jobs, Table.mem_revise, slot]
  constructor
  · rintro ⟨slot, hm, hj⟩
    rwa [(Table.get?_eq_some_iff _ h identity slot).mpr hm]
  · intro hj
    cases hg : f.cache.get? identity with
    | none =>
      rw [hg] at hj
      cases hj
    | some slot =>
      rw [hg] at hj
      exact ⟨slot, Table.mem_of_get?_eq_some _ identity slot hg, hj⟩

theorem nodup_keys_jobs {f : Factory} (h : f.cache.keys.Nodup) : f.jobs.keys.Nodup :=
  h.sublist (Table.keys_revise_sublist Slot.job f.cache)

theorem jobs_perm {f : Factory} (h : f.cache.keys.Nodup) (l : List (String × MethodJob))
    (hl : l.Nodup) (hm : ∀ identity job, (f.slot identity).job = some job ↔ (identity, job) ∈ l) :
    f.jobs.Perm l := by
  have hn : List.Nodup f.jobs := (nodup_keys_jobs h).of_map Prod.fst
  refine (List.perm_ext_iff_of_nodup hn hl).mpr fun x => ?_
  rw [← hm x.1 x.2, mem_jobs_iff h]

theorem jobs_setSlot_perm {f : Factory} (h : f.cache.keys.Nodup) (identity : String) (slot : Slot)
    (hnone : (f.slot identity).job = none) :
    (f.setSlot identity slot).jobs.Perm (f.jobs ++ (slot.job.map (identity, ·)).toList) := by
  have hnot (job : MethodJob) : (identity, job) ∉ f.jobs := by
    rw [mem_jobs_iff h, hnone]
    exact nofun
  refine jobs_perm (Table.nodup_keys_put f.cache h identity slot) _ ?_ fun i job => ?_
  · have hn : List.Nodup f.jobs := (nodup_keys_jobs h).of_map Prod.fst
    cases hj : slot.job with
    | none => simpa using hn
    | some job => simpa using hn.concat (hnot job)
  · rw [List.mem_append, mem_jobs_iff h, slot_setSlot]
    by_cases hi : i = identity
    · simp [hi, hnone, eq_comm]
    · simp [hi, Ne.symm hi]

theorem mem_identities (r : Registry) (key : JobKey)
    (h : r.hasMethod key.group key.name = true) : key.identity ∈ identities r := by
  unfold Registry.hasMethod at h
  cases he : r.get? key.group with
  | none => simp [he] at h
  | some entry =>
    rw [he, Option.any_some, Table.contains_iff] at h
    exact List.mem_flatMap.mpr ⟨_, Table.mem_of_get?_eq_some r _ _ he, List.mem_map_of_mem h⟩

/-- How many constructors may yet be called while all those are at work that are. -/
def free (f : Factory) : Nat :=
  {i ∈ (identities f.registry).toFinset | (f.slot i).locked = false}.card

theorem free_le (f : Factory) : f.free ≤ (identities f.registry).length :=
  (Finset.card_filter_le _ _).trans (List.toFinset_card_le (identities f.registry))

theorem free_le_of_locked {f g : Factory} (hr : g.registry = f.registry)
    (h : ∀ i, (f.slot i).locked = true → (g.slot i).locked = true) : g.free ≤ f.free := by
  rw [free, free, hr]
  refine Finset.card_le_card (Finset.monotone_filter_right _ fun i _ hg => ?_)
  by_contra hf
  simp [h i (by simpa using hf)] at hg

theorem free_lock_lt (f : Factory) (identity : String) (hi : identity ∈ identities f.registry)
    (hl : (f.slot identity).locked = false) : (f.lock identity).free < f.free := by
  refine Finset.card_lt_card ((Finset.ssubset_iff_of_subset fun i h => ?_).mpr ⟨identity, ?_, ?_⟩)
  · rw [Finset.mem_filter, slot_lock] at h
    rw [Finset.mem_filter]
    refine ⟨h.1, ?_⟩
    by_cases he : i = identity
    · simp [he] at h
    · simpa [he] using h.2
  · simpa using ⟨hi, hl⟩
  · simp [Finset.mem_filter, slot_lock]

def next? (f : Factory) (key : JobKey) (journal : Journal) : Option (BoundMethod × Construction) :=
  match checkKey f.registry key, f.slot key.identity with
  | .ok (), ⟨none, false, _⟩ => (f.registry.prepare key.group key.name journal).toOption
  | _, _ => none

/-- A question of a constructor, answered within a depth. -/
def question (depth : Nat) (key : JobKey) (s : Factory × Journal) :
    Option (Except (Raised RepositoryError) Unit) × Factory × Journal :=
  (toldOf (methodJobWithin depth key s).1, (methodJobWithin depth key s).2)

/-- What becomes of a call when its constructor has come to an outcome, if it has. -/
def conclude (identity : String) (b : BoundMethod) : Option Outcome × Factory × Journal →
    Option (Except (Raised RepositoryError) MethodJob) × Factory × Journal
  | (none, s) => (none, s)
  | (some o, f, journal) => (some (f.finish identity b o).1, (f.finish identity b o).2, journal)

/-- All that a call can be: its key names no method, its slot is locked, its job is there, or a
constructor is called. -/
inductive Begun (f : Factory) (key : JobKey) (journal : Journal) : Prop
  | refused (hr : ¬f.registry.Resolves key.group key.name) (hnext : f.next? key journal = none)
      (err : RepositoryError) (h : ∀ depth, methodJobWithin (depth + 1) key (f, journal) =
        (some (.error (.error err)), f, journal))
  | waiting (hr : f.registry.Resolves key.group key.name) (hnext : f.next? key journal = none)
      (hl : (f.slot key.identity).locked = true)
      (h : ∀ depth, methodJobWithin (depth + 1) key (f, journal) = (none, f, journal))
  | kept (hr : f.registry.Resolves key.group key.name) (hnext : f.next? key journal = none)
      (hl : (f.slot key.identity).locked = false) (job : MethodJob)
      (hj : (f.slot key.identity).job = some job)
      (h : ∀ depth, methodJobWithin (depth + 1) key (f, journal) = (some (.ok job), f, journal))
  | building (hr : f.registry.Resolves key.group key.name)
      (hl : (f.slot key.identity).locked = false) (hj : (f.slot key.identity).job = none)
      (entry : TypeEntry) (he : f.registry.get? key.group = some entry)
      (b : BoundMethod) (hb : MethodJob.Genuine f.registry ⟨key.identity, b⟩)
      (hkey : MethodJob.key ⟨key.identity, b⟩ = key)
      (hnumber : b.target.number = journal.nextNumber key.group)
      (hnext : f.next? key journal = some (b, entry.construct b.target.number))
      (h : ∀ depth, methodJobWithin (depth + 1) key (f, journal) =
        conclude key.identity b ((entry.construct b.target.number).run (question depth)
          (f.lock key.identity, journal ++ [.built key.group b.target.number])))

theorem begun (f : Factory) (key : JobKey) (journal : Journal) : f.Begun key journal := by
  cases hc : checkKey f.registry key with
  | error err =>
    have hr : ¬f.registry.Resolves key.group key.name := fun hr => by
      cases hc.symm.trans ((checkKey_eq_ok_iff _ _).mpr hr)
    exact .refused hr (by simp only [next?, hc]) err fun _ => by simp only [methodJobWithin, hc]
  | ok _ =>
    have hr := (checkKey_eq_ok_iff _ _).mp hc
    cases hs : f.slot key.identity with
    | mk job? locked poisoned =>
      cases locked with
      | true =>
        exact .waiting hr (by simp only [next?, hc, hs]) (by rw [hs])
          fun _ => by simp only [methodJobWithin, hc, hs]
      | false =>
        cases job? with
        | some job =>
          exact .kept hr (by simp only [next?, hc, hs]) (by rw [hs]) job (by rw [hs])
            fun _ => by simp only [methodJobWithin, hc, hs]
        | none =>
          obtain ⟨entry, b, he, hb, htype, hname, -, hnumber, hp⟩ :=
            f.registry.prepare_of_hasMethod _ _ journal hr.hasMethod
          have hkey : MethodJob.key ⟨key.identity, b⟩ = key := by rw [MethodJob.key, hname, htype]
          rw [← hnumber] at hp
          refine .building hr (by rw [hs]) (by rw [hs]) entry he b ⟨hb, by rw [hkey]⟩ hkey hnumber ?_
            fun depth => ?_
          · simp only [next?, hc, hs, hp, Except.toOption]
          · simp only [methodJobWithin, hc, hs, hp]
            rfl

structure Undisturbed (s t : Factory × Journal) : Prop where
  registry_eq : t.1.registry = s.1.registry
  slot_eq : ∀ i, (s.1.slot i).locked = true → t.1.slot i = s.1.slot i

instance : Std.Refl Undisturbed := ⟨fun _ => ⟨rfl, fun _ _ => rfl⟩⟩

instance : IsTrans (Factory × Journal) Undisturbed where
  trans _ _ _ h h' := by
    refine ⟨h'.registry_eq.trans h.registry_eq, fun i hi => ?_⟩
    rw [h'.slot_eq i (h.slot_eq i hi ▸ hi), h.slot_eq i hi]

theorem Undisturbed.free_le {s t : Factory × Journal} (h : Undisturbed s t) : t.1.free ≤ s.1.free :=
  free_le_of_locked h.registry_eq fun i hi => h.slot_eq i hi ▸ hi

theorem finish_eq (f : Factory) (identity : String) (b : BoundMethod) (o : Outcome) :
    ∃ answer slot, f.finish identity b o = (answer, f.setSlot identity slot) ∧ slot.locked = false ∧
      (o = .success ∧ answer = .ok ⟨identity, b⟩ ∧ slot.job = some ⟨identity, b⟩ ∨
        o ≠ .success ∧ (∃ err, answer = .error err) ∧ slot.job = (f.slot identity).job) := by
  cases o with
  | success => exact ⟨_, _, rfl, rfl, .inl ⟨rfl, rfl, rfl⟩⟩
  | failure e => exact ⟨_, _, rfl, rfl, .inr ⟨nofun, ⟨_, rfl⟩, rfl⟩⟩
  | panic p => exact ⟨_, _, rfl, rfl, .inr ⟨nofun, ⟨_, rfl⟩, rfl⟩⟩

theorem isOk_conclude_iff (identity : String) (b : BoundMethod)
    (x : Option Outcome × Factory × Journal) :
    (conclude identity b x).1.any Except.isOk = true ↔ x.1 = some .success := by
  obtain ⟨_ | o, f, journal⟩ := x
  · exact iff_of_false nofun nofun
  · obtain ⟨_, _, hf, -, ⟨rfl, rfl, -⟩ | ⟨ho, ⟨err, rfl⟩, -⟩⟩ := f.finish_eq identity b o
    · simp [conclude, hf, Except.isOk, Except.toBool]
    · simp [conclude, hf, Except.isOk, Except.toBool, ho]

theorem undisturbed_conclude {f : Factory} {journal journal' : Journal} (identity : String)
    (b : BoundMethod) (x : Option Outcome × Factory × Journal) (hl : (f.slot identity).locked = false)
    (h : Undisturbed (f.lock identity, journal') x.2) :
    Undisturbed (f, journal) (conclude identity b x).2 := by
  -- the slot that is written to was not locked, so that it is none of those that were
  have hslot (i : String) (hi : (f.slot i).locked = true) : i ≠ identity ∧ x.2.1.slot i = f.slot i := by
    have hne : i ≠ identity := by
      rintro rfl
      cases hl.symm.trans hi
    have hlock : (f.lock identity).slot i = f.slot i := by rw [slot_lock, if_neg hne]
    exact ⟨hne, (h.slot_eq i (hlock ▸ hi)).trans hlock⟩
  obtain ⟨_ | o, g, later⟩ := x
  · exact ⟨h.registry_eq, fun i hi => (hslot i hi).2⟩
  · obtain ⟨answer, slot, hf, -⟩ := g.finish_eq identity b o
    refine ⟨?_, fun i hi => ?_⟩
    · rw [conclude, hf]
      exact h.registry_eq
    · rw [conclude, hf, slot_setSlot, if_neg (hslot i hi).1]
      exact (hslot i hi).2

theorem undisturbed_methodJobWithin (depth : Nat) (key : JobKey) (s : Factory × Journal) :
    Undisturbed s (methodJobWithin depth key s).2 := by
  induction depth generalizing key s with
  | zero => exact Std.Refl.refl s
  | succ depth ih =>
    cases s.1.begun key s.2 with
    | refused _ _ err h => rw [h depth]; exact Std.Refl.refl s
    | waiting _ _ _ h => rw [h depth]; exact Std.Refl.refl s
    | kept _ _ _ job _ h => rw [h depth]; exact Std.Refl.refl s
    | building _ hl _ entry _ b _ _ _ _ h =>
      rw [h depth]
      exact undisturbed_conclude key.identity b _ hl
        (Construction.run_preserves _ Undisturbed (fun key s => ih key s) _ _)

/-- No greater depth is needed than there are methods whose slots are not locked. -/
theorem methodJobWithin_congr (depth depth' : Nat) (key : JobKey) (s : Factory × Journal)
    (h : s.1.free < depth) (h' : s.1.free < depth') :
    methodJobWithin depth key s = methodJobWithin depth' key s := by
  -- with each constructor the depth goes down by one, and the slots that are not locked with it
  induction depth generalizing depth' key s with
  | zero => exact absurd h (Nat.not_lt_zero _)
  | succ depth ih =>
    cases depth' with
    | zero => exact absurd h' (Nat.not_lt_zero _)
    | succ depth' =>
      cases s.1.begun key s.2 with
      | refused _ _ _ hm | waiting _ _ _ hm | kept _ _ _ _ _ hm => rw [hm depth, hm depth']
      | building hr hl _ entry _ b _ _ _ _ hm =>
        have hlt := s.1.free_lock_lt key.identity (mem_identities _ key hr.hasMethod) hl
        have hrun := (entry.construct b.target.number).run_lift (question depth)
          (question depth') id (fun t => t.1.free < depth ∧ t.1.free < depth')
          (fun key t ht => ?_) (fun key t ht => ?_)
          (s.1.lock key.identity, s.2 ++ [.built key.group b.target.number])
          ⟨by dsimp only; omega, by dsimp only; omega⟩
        · rw [hm depth, hm depth']
          exact congrArg _ hrun
        · have hle := (undisturbed_methodJobWithin depth' key t).free_le
          exact ⟨hle.trans_lt ht.1, hle.trans_lt ht.2⟩
        · simp only [question, id_eq, ih depth' key t ht.1 ht.2]

theorem methodJob_eq_of_lt (f : Factory) (key : JobKey) (journal : Journal) (depth : Nat)
    (h : f.free < depth) : f.methodJob key journal = methodJobWithin depth key (f, journal) :=
  methodJobWithin_congr _ depth key (f, journal) (Nat.lt_succ_of_le f.free_le) h

def asked (key : JobKey) (s : Factory × Journal) :
    Option (Except (Raised RepositoryError) Unit) × Factory × Journal :=
  (toldOf (s.1.methodJob key s.2).1, (s.1.methodJob key s.2).2)

theorem run_question (c : Construction) (depth : Nat) (s : Factory × Journal)
    (h : s.1.free < depth) : c.run (question depth) s = c.run asked s := by
  refine c.run_lift _ _ id (fun t => t.1.free < depth) (fun key t ht => ?_) (fun key t ht => ?_) s h
  · exact (undisturbed_methodJobWithin _ key t).free_le.trans_lt ht
  · simp only [question, asked, id_eq, t.1.methodJob_eq_of_lt key t.2 depth ht]

theorem methodJob_of_building (f : Factory) (key : JobKey) (journal : Journal) (b : BoundMethod)
    (c : Construction) (hr : f.registry.Resolves key.group key.name)
    (hl : (f.slot key.identity).locked = false)
    (h : ∀ depth, methodJobWithin (depth + 1) key (f, journal) =
      conclude key.identity b (c.run (question depth)
        (f.lock key.identity, journal ++ [.built key.group b.target.number]))) :
    f.methodJob key journal = conclude key.identity b (c.run asked
      (f.lock key.identity, journal ++ [.built key.group b.target.number])) := by
  have hlt := f.free_lock_lt key.identity (mem_identities _ key hr.hasMethod) hl
  rw [methodJob, h, run_question]
  exact hlt.trans_le f.free_le

/-- What the constructor comes to that a call for a job calls, if it calls one that ends. -/
def constructs (f : Factory) (key : JobKey) (journal : Journal) : Option Outcome :=
  (f.next? key journal).bind fun x => (x.2.run asked
    (f.lock key.identity, journal ++ [.built key.group x.1.target.number])).1

/-- A call is answered with a job if its key is good, and the job is there or its constructor succeeds. -/
theorem isOk_methodJob_iff (f : Factory) (key : JobKey) (journal : Journal) :
    (f.methodJob key journal).1.any Except.isOk = true ↔ checkKey f.registry key = .ok () ∧
      ((f.slot key.identity).locked = false ∧ (f.slot key.identity).job.isSome = true ∨
        f.constructs key journal = some .success) := by
  rw [checkKey_eq_ok_iff]
  cases f.begun key journal with
  | refused hr _ err hm =>
    rw [methodJob, hm]
    exact iff_of_false nofun fun h => hr h.1
  | waiting hr hnext hl hm =>
    rw [methodJob, hm, constructs, hnext, hl]
    exact iff_of_false nofun (by simp)
  | kept hr _ hl job hj hm =>
    rw [methodJob, hm, hj]
    exact iff_of_true rfl ⟨hr, .inl ⟨hl, rfl⟩⟩
  | building hr hl hj entry _ b _ _ _ hnext hm =>
    rw [f.methodJob_of_building key journal b _ hr hl hm, constructs, hnext, hj]
    simp [hr, isOk_conclude_iff]

end Factory

end CronTasks.Trigger
