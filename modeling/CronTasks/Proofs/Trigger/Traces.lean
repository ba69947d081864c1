import CronTasks.Proofs.Trigger.Calls

namespace CronTasks.Trigger

namespace Factory

/-- What comes of a call: a job, a failure, or nothing, if it never ends. -/
inductive Answer
  | given (job : MethodJob)
  | failed
  | pending

def Answer.of {ε : Type} : Option (Except ε MethodJob) → Answer
  | some (.ok job) => .given job
  | some (.error _) => .failed
  | none => .pending

theorem Answer.of_eq_given_iff {ε : Type} (made : Option (Except ε MethodJob)) (job : MethodJob) :
    Answer.of made = .given job ↔ made = some (.ok job) := by
  rcases made with _ | _ | _ <;> simp [Answer.of]

theorem Answer.any_isOk_iff {ε : Type} (made : Option (Except ε MethodJob)) :
    made.any Except.isOk = true ↔ ∃ job, Answer.of made = .given job := by
  rcases made with _ | _ | _ <;> simp [Answer.of, Except.isOk, Except.toBool]

/-- A call for a job and what came of it. -/
structure Call where
  key : JobKey
  type : JobType
  /-- The identities of the calls whose constructors made this call, the nearest first. -/
  within : List String
  /-- The number of the instance that a constructor was called for, and how that ended, if it did. -/
  attempt : Option (Nat × Option Outcome)
  answer : Answer
  /-- The factory when the call ended, or came to a standstill. -/
  left : Factory

namespace Call

def identity (x : Call) : String := x.key.identity

structure Valid (r : Registry) (x : Call) : Prop where
  type_eq : x.type = .method
  resolves : r.Resolves x.key.group x.key.name

def built? (x : Call) : Option (String × MethodJob) :=
  match x.attempt, x.answer with
  | some _, .given job => some (x.identity, job)
  | _, _ => none

def event? (x : Call) : Option Event := x.attempt.map fun a => .built x.key.group a.1

def Stuck (x : Call) : Prop := x.attempt.isSome = true ∧ x.answer = .pending

end Call

def built (calls : List Call) : List (String × MethodJob) := calls.filterMap Call.built?

/-- That the constructor for an identity is at work: for one of the calls within which this is, or for
an earlier one which never ends. -/
def AtWork (within : List String) (before : List Call) (identity : String) : Prop :=
  identity ∈ within ∨ ∃ y ∈ before, y.identity = identity ∧ y.Stuck

def noted (depth : Nat) (calls : JobKey → Factory × Journal → List Call) (key : JobKey)
    (s : List Call × Factory × Journal) :
    Option (Except (Raised RepositoryError) Unit) × List Call × Factory × Journal :=
  ((question depth key s.2).1, s.1 ++ calls key s.2, (question depth key s.2).2)

/-- The calls that a call comes to, those of its constructor first, in the order in which they end. -/
def callsWithin : Nat → List String → JobKey → Factory × Journal → List Call
  | 0, _, _, _ => []
  | depth + 1, within, key, (f, journal) =>
    let (answer, left, _) := methodJobWithin (depth + 1) key (f, journal)
    match f.next? key journal with
    | none => [⟨key, .method, within, none, .of answer, left⟩]
    | some (b, c) =>
      let (outcome, calls, _) := c.run (noted depth (callsWithin depth (key.identity :: within)))
        ([], f.lock key.identity, journal ++ [.built key.group b.target.number])
      calls ++ [⟨key, .method, within, some (b.target.number, outcome), .of answer, left⟩]

def calls (f : Factory) (key : JobKey) (journal : Journal) : List Call :=
  callsWithin ((identities f.registry).length + 1) [] key (f, journal)

def Stalls (within : List String) (calls : List Call) : Prop :=
  ∃ y, calls.getLast? = some y ∧ y.answer = .pending ∧ y.within = within

/-- What becomes of a call whose constructor was called, by what that has come to. -/
def Concluded (r : Registry) (before : List Call) (x : Call) (number : Nat) : Option Outcome → Prop
  | some .success => ∃ job, x.answer = .given job ∧ job.Genuine r ∧ job.key = x.key ∧
      job.bound.target.number = number
  | some _ => x.answer = .failed
  | none => x.answer = .pending ∧ Stalls (x.identity :: x.within) before

/-- What becomes of a call, by the calls that ended before it. -/
structure Lawful (r : Registry) (before : List Call) (x : Call) : Prop where
  refused : ¬x.Valid r → x.attempt = none ∧ x.answer = .failed
  kept : x.Valid r → ∀ job, (x.identity, job) ∈ built before →
    x.attempt = none ∧ x.answer = .given job
  waiting : x.Valid r → (∀ job, (x.identity, job) ∉ built before) →
    AtWork x.within before x.identity → x.attempt = none ∧ x.answer = .pending
  building : x.Valid r → (∀ job, (x.identity, job) ∉ built before) →
    ¬AtWork x.within before x.identity →
    ∃ entry number outcome, r.get? x.key.group = some entry ∧ x.attempt = some (number, outcome) ∧
      (∀ o, entry.construct number = .done o → outcome = some o) ∧
      Concluded r before x number outcome
  left_eq : ∀ identity job, (x.left.slot identity).job = some job ↔
    (identity, job) ∈ built (before ++ [x])
  cachedJobs_eq : x.left.cachedJobs = (built (before ++ [x])).length

/-- What a factory keeps after calls, within some that are not over. -/
structure Keeps (r : Registry) (within : List String) (calls : List Call) (f : Factory) : Prop where
  registry_eq : f.registry = r
  nodup : f.cache.keys.Nodup
  jobs_perm : f.jobs.Perm (built calls)
  locked_iff : ∀ i, (f.slot i).locked = true ↔ AtWork within calls i
  unbuilt : ∀ i, (f.slot i).locked = true → (f.slot i).job = none
  genuine : ∀ i job, (i, job) ∈ built calls → job.Genuine r ∧ job.identity = i

def AllLawful (r : Registry) (calls : List Call) : Prop :=
  ∀ before x after, calls = before ++ x :: after → Lawful r before x

theorem built_append (xs ys : List Call) : built (xs ++ ys) = built xs ++ built ys :=
  List.filterMap_append

theorem built_append_of_attempt_none (calls : List Call) (x : Call) (hx : x.attempt = none) :
    built (calls ++ [x]) = built calls := by
  simp [built, Call.built?, hx]

theorem atWork_append_of_not_stuck (within : List String) (calls : List Call) (x : Call)
    (hx : ¬x.Stuck) (i : String) : AtWork within (calls ++ [x]) i ↔ AtWork within calls i := by
  unfold AtWork
  simp [or_and_right, exists_or, hx]

theorem AllLawful.concat {r : Registry} {calls : List Call} {x : Call} (h : AllLawful r calls)
    (hx : Lawful r calls x) : AllLawful r (calls ++ [x]) := by
  intro before y after he
  obtain ⟨l, rfl, hl⟩ | ⟨l, rfl, hl⟩ := List.append_eq_append_iff.mp he
  · cases l with
    | nil =>
      cases hl
      rwa [List.append_nil]
    | cons z l => simp at hl
  · cases l with
    | nil =>
      cases hl
      rwa [List.append_nil] at hx
    | cons z l =>
      cases hl
      exact h before y l rfl

namespace Keeps

variable {r : Registry} {within : List String} {calls : List Call} {f : Factory}

theorem mem_built_iff (h : Keeps r within calls f) (identity : String) (job : MethodJob) :
    (f.slot identity).job = some job ↔ (identity, job) ∈ built calls := by
  rw [← mem_jobs_iff h.nodup, h.jobs_perm.mem_iff]

theorem notMem_built_iff (h : Keeps r within calls f) (identity : String) :
    (f.slot identity).job = none ↔ ∀ job, (identity, job) ∉ built calls := by
  simp only [← h.mem_built_iff, Option.eq_none_iff_forall_ne_some, ne_eq]

theorem cachedJobs_eq (h : Keeps r within calls f) : f.cachedJobs = (built calls).length := by
  rw [← length_jobs, h.jobs_perm.length_eq]

theorem note (h : Keeps r within calls f) (x : Call) (hx : x.attempt = none) :
    Keeps r within (calls ++ [x]) f where
  registry_eq := h.registry_eq
  nodup := h.nodup
  jobs_perm := by rw [built_append_of_attempt_none calls x hx]; exact h.jobs_perm
  locked_iff := fun i => by
    rw [atWork_append_of_not_stuck within calls x (by simp [Call.Stuck, hx]), h.locked_iff]
  unbuilt := h.unbuilt
  genuine := by rw [built_append_of_attempt_none calls x hx]; exact h.genuine

theorem lock (h : Keeps r within calls f) (identity : String)
    (hj : (f.slot identity).job = none) : Keeps r (identity :: within) calls (f.lock identity) where
  registry_eq := h.registry_eq
  nodup := Table.nodup_keys_put f.cache h.nodup _ _
  jobs_perm := by
    have hp := jobs_setSlot_perm h.nodup identity { f.slot identity with locked := true } hj
    rw [hj] at hp
    exact (hp.trans (by simp)).trans h.jobs_perm
  locked_iff := fun i => by
    rw [slot_lock, AtWork, List.mem_cons, or_assoc, ← AtWork, ← h.locked_iff]
    by_cases hi : i = identity <;> simp [hi]
  unbuilt := fun i hi => by
    rw [slot_lock] at hi ⊢
    split
    next => exact hj
    next hne => exact h.unbuilt i (by rwa [if_neg hne] at hi)
  genuine := h.genuine

theorem unlock {x : Call} (h : Keeps r (x.identity :: within) calls f)
    (hfree : ¬AtWork within calls x.identity) (hx : ¬x.Stuck) (slot : Slot) (hl : slot.locked = false)
    (hb : x.built? = slot.job.map (x.identity, ·))
    (hg : ∀ job, slot.job = some job → job.Genuine r ∧ job.identity = x.identity) :
    Keeps r within (calls ++ [x]) (f.setSlot x.identity slot) := by
  have hbuilt : built (calls ++ [x]) = built calls ++ (slot.job.map (x.identity, ·)).toList := by
    rw [built_append, ← hb]
    cases hb' : x.built? <;> simp [built, hb']
  refine ⟨h.registry_eq, Table.nodup_keys_put f.cache h.nodup _ _, ?_, fun i => ?_, fun i hi => ?_,
    fun i job hm => ?_⟩
  · have hnone := h.unbuilt _ ((h.locked_iff _).mpr (.inl List.mem_cons_self))
    rw [hbuilt]
    exact (jobs_setSlot_perm h.nodup _ slot hnone).trans (h.jobs_perm.append_right _)
  · rw [atWork_append_of_not_stuck within calls x hx, slot_setSlot]
    split
    next hi => simp [hi, hl, hfree]
    next hi => rw [h.locked_iff, AtWork, AtWork, List.mem_cons, or_iff_right hi]
  · rw [slot_setSlot] at hi ⊢
    split
    next he => simp [he, hl] at hi
    next he => exact h.unbuilt i (by rwa [if_neg he] at hi)
  · obtain hm | hm := List.mem_append.mp (hbuilt ▸ hm)
    · exact h.genuine i job hm
    · obtain ⟨_, hj, he⟩ : ∃ job', slot.job = some job' ∧ (x.identity, job') = (i, job) := by
        simpa using hm
      cases he
      exact hg _ hj

theorem stall {x : Call} (h : Keeps r (x.identity :: within) calls f) (hx : x.Stuck) :
    Keeps r within (calls ++ [x]) f := by
  have hnone : x.built? = none := by simp [Call.built?, hx.2]
  have hbuilt : built (calls ++ [x]) = built calls := by simp [built, hnone]
  refine ⟨h.registry_eq, h.nodup, hbuilt ▸ h.jobs_perm, fun i => ?_, h.unbuilt,
    fun i job hm => h.genuine i job (hbuilt ▸ hm)⟩
  rw [h.locked_iff, AtWork, AtWork, List.mem_cons]
  simp only [List.mem_append, List.mem_singleton, or_and_right, exists_or, exists_eq_left, hx, and_true]
  rw [eq_comm, or_assoc, or_comm, or_assoc]

end Keeps

/-- A constructor is called only while none has succeeded for its identity and none is at work. -/
theorem Lawful.of_attempt {r : Registry} {before : List Call} {x : Call} (h : Lawful r before x)
    (hx : x.attempt ≠ none) : x.Valid r ∧ (∀ job, (x.identity, job) ∉ built before) ∧
      ¬AtWork x.within before x.identity := by
  have hv : x.Valid r := by
    by_contra hv
    exact hx (h.refused hv).1
  have hb : ∀ job, (x.identity, job) ∉ built before := fun job hj => hx (h.kept hv job hj).1
  exact ⟨hv, hb, fun hw => hx (h.waiting hv hb hw).1⟩

/-- What a call comes to, after earlier ones: its calls, of which it is the last itself. -/
structure Traced (r : Registry) (within : List String) (earlier : List Call) (key : JobKey)
    (journal : Journal) (calls : List Call)
    (after : Option (Except (Raised RepositoryError) MethodJob) × Factory × Journal) : Prop where
  keeps : Keeps r within (earlier ++ calls) after.2.1
  lawful : AllLawful r (earlier ++ calls)
  journal_eq : ∃ added, after.2.2 = journal ++ added ∧ added.Perm (calls.filterMap Call.event?)
  last : ∃ inner x, calls = inner ++ [x] ∧ (∀ y ∈ inner, key.identity :: within <:+ y.within) ∧
    x.key = key ∧ x.type = .method ∧ x.within = within ∧ x.answer = .of after.1 ∧ x.left = after.2.1

/-- The calls of a constructor so far, and what they leave. -/
structure Sane (r : Registry) (within : List String) (earlier : List Call) (depth : Nat)
    (s : List Call × Factory × Journal) : Prop where
  keeps : Keeps r within (earlier ++ s.1) s.2.1
  lawful : AllLawful r (earlier ++ s.1)
  free_lt : s.2.1.free < depth
  inner : ∀ y ∈ s.1, within <:+ y.within

structure Continues (r : Registry) (within : List String) (earlier : List Call) (depth : Nat)
    (s t : List Call × Factory × Journal) : Prop where
  sane : Sane r within earlier depth s → Sane r within earlier depth t
  adds : Sane r within earlier depth s → ∃ calls added, t.1 = s.1 ++ calls ∧ t.2.2 = s.2.2 ++ added ∧
    added.Perm (calls.filterMap Call.event?)

section Tracing

variable {r : Registry} {within : List String} {earlier : List Call} {depth : Nat}

instance : Std.Refl (Continues r within earlier depth) :=
  ⟨fun s => ⟨id, fun _ => ⟨[], [], by simp, by simp, .refl _⟩⟩⟩

instance : IsTrans (List Call × Factory × Journal) (Continues r within earlier depth) where
  trans s t u h h' := by
    refine ⟨fun hs => h'.sane (h.sane hs), fun hs => ?_⟩
    obtain ⟨calls, added, hc, ha, hp⟩ := h.adds hs
    obtain ⟨calls', added', hc', ha', hp'⟩ := h'.adds (h.sane hs)
    refine ⟨calls ++ calls', added ++ added', ?_, ?_, ?_⟩
    · rw [hc', hc, List.append_assoc]
    · rw [ha', ha, List.append_assoc]
    · rw [List.filterMap_append]
      exact hp.append hp'

theorem Traced.of_plain {f : Factory} {key : JobKey} {journal : Journal}
    (h : Keeps r within earlier f) (hl : AllLawful r earlier)
    (answer : Option (Except (Raised RepositoryError) MethodJob))
    (hx : let x : Call := ⟨key, .method, within, none, .of answer, f⟩
      (¬x.Valid r → x.answer = .failed) ∧
      (x.Valid r → ∀ job, (x.identity, job) ∈ built earlier → x.answer = .given job) ∧
      (x.Valid r → (∀ job, (x.identity, job) ∉ built earlier) →
        AtWork within earlier x.identity ∧ x.answer = .pending)) :
    Traced r within earlier key journal [⟨key, .method, within, none, .of answer, f⟩]
      (answer, f, journal) := by
  obtain ⟨hrefused, hkept, hwaiting⟩ := hx
  have hkeeps := h.note ⟨key, .method, within, none, .of answer, f⟩ rfl
  refine ⟨hkeeps, hl.concat ?_, ⟨[], by simp, by simp [Call.event?]⟩, [], _, rfl,
    fun _ hy => absurd hy List.not_mem_nil, rfl, rfl, rfl, rfl, rfl⟩
  exact ⟨fun hv => ⟨rfl, hrefused hv⟩, fun hv job hj => ⟨rfl, hkept hv job hj⟩,
    fun hv hb _ => ⟨rfl, (hwaiting hv hb).2⟩, fun hv hb hw => absurd (hwaiting hv hb).1 hw,
    hkeeps.mem_built_iff, hkeeps.cachedJobs_eq⟩

theorem Traced.continues {key : JobKey} {s : List Call × Factory × Journal}
    (h : Sane r within earlier depth s →
      Traced r within (earlier ++ s.1) key s.2.2 (callsWithin depth within key s.2)
        (methodJobWithin depth key s.2)) :
    Continues r within earlier depth s (noted depth (callsWithin depth within) key s).2 := by
  refine ⟨fun hs => ?_, fun hs => ?_⟩
  · obtain ⟨hkeeps, hlawful, -, inner, x, hcalls, hinner, -, -, hwithin, -, -⟩ := h hs
    refine ⟨?_, ?_, (undisturbed_methodJobWithin depth key s.2).free_le.trans_lt hs.free_lt, ?_⟩
    · rwa [noted, ← List.append_assoc]
    · rwa [noted, ← List.append_assoc]
    · intro y hy
      rw [noted, hcalls] at hy
      obtain hy | hy := List.mem_append.mp hy
      · exact hs.inner y hy
      · obtain hy | hy := List.mem_append.mp hy
        · exact (List.suffix_cons key.identity within).trans (hinner y hy)
        · obtain rfl := List.mem_singleton.mp hy
          exact hwithin ▸ List.suffix_rfl
  · obtain ⟨added, ha, hp⟩ := (h hs).journal_eq
    exact ⟨_, added, rfl, ha, hp⟩

/-- The run of a constructor whose calls are traced. -/
theorem Sane.run {s : List Call × Factory × Journal} (hs : Sane r within earlier depth s)
    (hcalls : ∀ key s, Sane r within earlier depth s →
      Traced r within (earlier ++ s.1) key s.2.2 (callsWithin depth within key s.2)
        (methodJobWithin depth key s.2)) (c : Construction) :
    let x := c.run (noted depth (callsWithin depth within)) s
    Continues r within earlier depth s x.2 ∧ (x.1 = none → Stalls within x.2.1) := by
  have hrun := c.run_within (noted depth (callsWithin depth within))
    (Continues r within earlier depth)
    (fun s t => Continues r within earlier depth s t ∧
      (Sane r within earlier depth s → Stalls within t.1))
    (fun s t u h h' => ⟨IsTrans.trans s t u h h'.1, fun hs => h'.2 (h.sane hs)⟩) (fun key s => ?_) s
  · dsimp only
    split at hrun
    next hx =>
      rw [hx]
      exact ⟨hrun, nofun⟩
    next hx =>
      rw [hx]
      exact ⟨hrun.1, fun _ => hrun.2 hs⟩
  · have hc := Traced.continues (hcalls key s)
    split
    next hx => rwa [hx] at hc
    next t hx =>
      refine ⟨by rwa [hx] at hc, fun hs => ?_⟩
      obtain ⟨-, -, -, inner, x, hl, -, -, -, hwithin, ha, -⟩ := hcalls key s hs
      obtain ⟨hnone, rfl⟩ := Prod.mk.injEq .. ▸ hx
      refine ⟨x, ?_, ?_, hwithin⟩
      · simp [hl]
      · rw [ha]
        simp only [question, toldOf, Option.map_eq_none_iff] at hnone
        rw [hnone]
        rfl

theorem Sane.not_atWork {f : Factory} {identity : String} {s : List Call × Factory × Journal}
    (hs : Sane r (identity :: within) earlier depth s) (h : Keeps r within earlier f)
    (hlock : (f.slot identity).locked = false) : ¬AtWork within (earlier ++ s.1) identity := by
  have hnot : ¬AtWork within earlier identity := fun hw => by
    simp [(h.locked_iff identity).mpr hw] at hlock
  rintro (hm | ⟨y, hy, hyi, hst⟩)
  · exact hnot (.inl hm)
  · obtain hy' | hy' := List.mem_append.mp hy
    · exact hnot (.inr ⟨y, hy', hyi, hst⟩)
    · obtain ⟨before, after, he⟩ := List.append_of_mem hy
      have hattempt : y.attempt ≠ none := fun hn => by simp [Call.Stuck, hn] at hst
      exact ((hs.lawful before y after he).of_attempt hattempt).2.2
        (.inl (hyi ▸ (hs.inner y hy').subset List.mem_cons_self))

theorem Sane.unbuilt {identity : String} {s : List Call × Factory × Journal}
    (hs : Sane r (identity :: within) earlier depth s) : (s.2.1.slot identity).job = none :=
  hs.keeps.unbuilt _ ((hs.keeps.locked_iff _).mpr (.inl List.mem_cons_self))

/-- What a constructor has come to decides what is kept, and what is answered. -/
theorem Sane.concluded {key : JobKey} {b : BoundMethod} {calls : List Call} {g : Factory}
    {later : Journal} (hs : Sane r (key.identity :: within) earlier depth (calls, g, later))
    (hfree : ¬AtWork within (earlier ++ calls) key.identity)
    (hb : MethodJob.Genuine r ⟨key.identity, b⟩) (hkey : MethodJob.key ⟨key.identity, b⟩ = key)
    (o : Outcome) :
    let after := conclude key.identity b (some o, g, later)
    let x : Call := ⟨key, .method, within, some (b.target.number, some o), .of after.1, after.2.1⟩
    Keeps r within (earlier ++ calls ++ [x]) after.2.1 ∧
      Concluded r (earlier ++ calls) x b.target.number (some o) := by
  intro after x
  obtain ⟨answer, slot, hf, hl, ho⟩ := g.finish_eq key.identity b o
  have hafter : after = (some answer, g.setSlot key.identity slot, later) := by
    simp only [after, conclude, hf]
  have hleft : after.2.1 = g.setSlot key.identity slot := by rw [hafter]
  have ha : x.attempt = some (b.target.number, some o) := rfl
  have hx : x.answer = .of (some answer) := congrArg (Answer.of ·.1) hafter
  have hstuck : ¬x.Stuck := fun hs => by
    have hp := hx.symm.trans hs.2
    cases answer <;> cases hp
  rw [hleft]
  obtain ⟨rfl, rfl, hj⟩ | ⟨ho, ⟨err, rfl⟩, hj⟩ := ho
  · refine ⟨hs.keeps.unlock (x := x) hfree hstuck slot hl ?_ ?_, _, hx, hb, hkey, rfl⟩
    · simp only [Call.built?, ha, hx, Answer.of, hj, Option.map_some]
    · rintro job hjob
      cases hj.symm.trans hjob
      exact ⟨hb, rfl⟩
  · rw [hs.unbuilt] at hj
    refine ⟨hs.keeps.unlock (x := x) hfree hstuck slot hl ?_ ?_, ?_⟩
    · simp [Call.built?, hx, Answer.of, hj]
    · exact fun job hjob => by simp [hj] at hjob
    · cases o with
      | success => exact absurd rfl ho
      | failure e => exact hx
      | panic p => exact hx

theorem Traced.of_run {f : Factory} {key : JobKey} {journal : Journal} {entry : TypeEntry}
    {b : BoundMethod} (h : Keeps r within earlier f) (hr : r.Resolves key.group key.name)
    (hlock : (f.slot key.identity).locked = false) (he : r.get? key.group = some entry)
    (hb : MethodJob.Genuine r ⟨key.identity, b⟩) (hkey : MethodJob.key ⟨key.identity, b⟩ = key)
    (o : Option Outcome) (s : List Call × Factory × Journal)
    (hs : Sane r (key.identity :: within) earlier depth s)
    (hadds : ∃ calls added, s.1 = [] ++ calls ∧
      s.2.2 = (journal ++ [.built key.group b.target.number]) ++ added ∧
        added.Perm (calls.filterMap Call.event?))
    (hstall : o = none → Stalls (key.identity :: within) s.1)
    (hdone : ∀ o', entry.construct b.target.number = .done o' → o = some o') :
    let after := conclude key.identity b (o, s.2)
    Traced r within earlier key journal
      (s.1 ++ [⟨key, .method, within, some (b.target.number, o), .of after.1, after.2.1⟩]) after := by
  intro after
  obtain ⟨calls, g, later⟩ := s
  have hfree := hs.not_atWork h hlock
  have hnew := (hs.keeps.notMem_built_iff key.identity).mp hs.unbuilt
  let x : Call := ⟨key, .method, within, some (b.target.number, o), .of after.1, after.2.1⟩
  have hv : x.Valid r := ⟨rfl, hr⟩
  have hjournal : ∃ added, after.2.2 = journal ++ added ∧
      added.Perm ((calls ++ [x]).filterMap Call.event?) := by
    obtain ⟨_, added, rfl, ha, hp⟩ := hadds
    have hlater : after.2.2 = later := by cases o <;> rfl
    refine ⟨.built key.group b.target.number :: added, ?_, ?_⟩
    · rw [hlater]
      exact ha.trans (List.append_assoc _ _ _)
    · rw [List.filterMap_append]
      exact (hp.cons _).trans (List.perm_append_singleton _ _).symm
  suffices hx : Keeps r within (earlier ++ calls ++ [x]) after.2.1 ∧
      Concluded r (earlier ++ calls) x b.target.number o by
    refine ⟨by rw [← List.append_assoc]; exact hx.1, ?_, hjournal, calls, x, rfl, hs.inner,
      rfl, rfl, rfl, rfl, rfl⟩
    rw [← List.append_assoc]
    exact hs.lawful.concat ⟨fun hn => absurd hv hn, fun _ job hj => absurd hj (hnew job),
      fun _ _ hw => absurd hw hfree, fun _ _ _ => ⟨entry, _, o, he, rfl, hdone, hx.2⟩,
      hx.1.mem_built_iff, hx.1.cachedJobs_eq⟩
  cases o with
  | none =>
    obtain ⟨y, hy, hpending, hwithin⟩ := hstall rfl
    have hlast : (earlier ++ calls).getLast? = some y := by
      rw [List.getLast?_append, hy]
      rfl
    exact ⟨hs.keeps.stall (x := x) ⟨rfl, rfl⟩, rfl, y, hlast, hpending, hwithin⟩
  | some o => exact hs.concluded hfree hb hkey o

theorem traced (depth : Nat) (within : List String) (earlier : List Call) (key : JobKey)
    (f : Factory) (journal : Journal) (h : Keeps r within earlier f) (hl : AllLawful r earlier)
    (hd : f.free < depth) :
    Traced r within earlier key journal (callsWithin depth within key (f, journal))
      (methodJobWithin depth key (f, journal)) := by
  -- a constructor that is called holds a slot, so that less depth is enough for what it asks
  induction depth generalizing within earlier key f journal with
  | zero => exact absurd hd (Nat.not_lt_zero _)
  | succ depth ih =>
    have hreg := h.registry_eq
    cases f.begun key journal with
    | refused hr hnext err hm =>
      simp only [callsWithin, hm depth, hnext]
      refine .of_plain h hl _ ⟨fun _ => rfl, fun hv => ?_, fun hv => ?_⟩
      · exact absurd (hreg ▸ hv.resolves) hr
      · exact absurd (hreg ▸ hv.resolves) hr
    | waiting hr hnext hlock hm =>
      simp only [callsWithin, hm depth, hnext]
      have hnone := (h.notMem_built_iff _).mp (h.unbuilt _ hlock)
      refine .of_plain h hl _ ⟨fun hv => ?_, fun _ job hj => ?_, fun _ _ => ⟨?_, rfl⟩⟩
      · exact absurd ⟨rfl, hreg ▸ hr⟩ hv
      · exact absurd hj (hnone job)
      · exact (h.locked_iff _).mp hlock
    | kept hr hnext hlock job hj hm =>
      simp only [callsWithin, hm depth, hnext]
      have hmem := (h.mem_built_iff _ _).mp hj
      refine .of_plain h hl _ ⟨fun hv => ?_, fun _ job' hj' => ?_, fun _ hb => ?_⟩
      · exact absurd ⟨rfl, hreg ▸ hr⟩ hv
      · cases hj.symm.trans ((h.mem_built_iff _ _).mpr hj')
        rfl
      · exact absurd hmem (hb job)
    | building hr hlock hj entry he b hb hkey hnumber hnext hm =>
      let start : List Call × Factory × Journal :=
        ([], f.lock key.identity, journal ++ [.built key.group b.target.number])
      have hlt := f.free_lock_lt key.identity (mem_identities _ key hr.hasMethod) hlock
      have hs : Sane r (key.identity :: within) earlier depth start :=
        ⟨by simpa [start] using h.lock key.identity hj, by simpa [start] using hl,
          by dsimp only [start]; omega, fun _ hy => absurd hy List.not_mem_nil⟩
      obtain ⟨hcont, hstall⟩ := hs.run (fun key s hs =>
        ih _ _ key s.2.1 s.2.2 hs.keeps hs.lawful hs.free_lt) (entry.construct b.target.number)
      -- to note the calls of the constructor changes nothing of what it does
      have hlift := (entry.construct b.target.number).run_lift (question depth)
        (noted depth (callsWithin depth (key.identity :: within))) Prod.snd (fun _ => True)
        (fun _ _ _ => trivial) (fun _ _ _ => rfl) start trivial
      simp only [callsWithin, hm depth, hnext]
      have hstart : (f.lock key.identity, journal ++ [.built key.group b.target.number]) = start.2 := rfl
      rw [hstart, hlift]
      refine Traced.of_run h (hreg ▸ hr) hlock (hreg ▸ he) (hreg ▸ hb) hkey _ _ (hcont.sane hs) ?_
        hstall ?_
      · exact hcont.adds hs
      · intro o ho
        rw [ho]
        rfl

end Tracing

end Factory

end CronTasks.Trigger
