import CronTasks.Proofs.Trigger.Traces

namespace CronTasks.Trigger

namespace Factory

abbrev Request := JobKey × Journal

/-- All the calls that calls of users come to, and the factory that they leave behind. Anything may
happen between two calls of users. -/
def serve (f : Factory) : List Request → List Call × Factory
  | [] => ([], f)
  | (key, journal) :: rs =>
    (f.calls key journal ++ ((f.methodJob key journal).2.1.serve rs).1,
      ((f.methodJob key journal).2.1.serve rs).2)

def answers (calls : List Call) : List (JobKey × MethodJob) :=
  calls.filterMap fun x =>
    match x.answer with
    | .given job => some (x.key, job)
    | _ => none

theorem mem_answers_iff (calls : List Call) (key : JobKey) (job : MethodJob) :
    (key, job) ∈ answers calls ↔ ∃ x ∈ calls, x.key = key ∧ x.answer = .given job := by
  rw [answers, List.mem_filterMap]
  refine exists_congr fun x => and_congr_right fun _ => ?_
  cases x.answer with
  | given j => simp
  | failed => simp
  | pending => simp

theorem keeps_ofRegistry (r : Registry) : Keeps r [] [] (ofRegistry r) where
  registry_eq := rfl
  nodup := List.nodup_nil
  jobs_perm := .refl _
  locked_iff := fun i => iff_of_false nofun (by simp [AtWork])
  unbuilt := fun _ _ => rfl
  genuine := fun _ _ h => absurd h List.not_mem_nil

theorem allLawful_nil (r : Registry) : AllLawful r [] := by
  intro before x after h
  simp at h

theorem Keeps.traced {r : Registry} {earlier : List Call} {f : Factory} (h : Keeps r [] earlier f)
    (hl : AllLawful r earlier) (key : JobKey) (journal : Journal) :
    Traced r [] earlier key journal (f.calls key journal) (f.methodJob key journal) :=
  Factory.traced _ [] earlier key f journal h hl (Nat.lt_succ_of_le f.free_le)

theorem Keeps.serve {r : Registry} {earlier : List Call} {f : Factory} (h : Keeps r [] earlier f)
    (hl : AllLawful r earlier) (rs : List Request) :
    Keeps r [] (earlier ++ (f.serve rs).1) (f.serve rs).2 ∧
      AllLawful r (earlier ++ (f.serve rs).1) := by
  induction rs generalizing f earlier with
  | nil => simpa [Factory.serve] using ⟨h, hl⟩
  | cons x rs ih =>
    have ht := h.traced hl x.1 x.2
    simpa [Factory.serve] using ih ht.keeps ht.lawful

section Answers

variable {r : Registry} {calls : List Call} {f : Factory} {x y : JobKey × MethodJob}

/-- The job that a call is answered with was built in this call or in an earlier one. -/
theorem AllLawful.built_of_given (hl : AllLawful r calls) (x : Call) (hx : x ∈ calls) (job : MethodJob)
    (ha : x.answer = .given job) : x.Valid r ∧ (x.identity, job) ∈ built calls := by
  obtain ⟨before, after, rfl⟩ := List.append_of_mem hx
  have h := hl before x after rfl
  have hv : x.Valid r := by
    by_contra hv
    cases ha.symm.trans (h.refused hv).2
  refine ⟨hv, ?_⟩
  by_cases hb : ∀ job, (x.identity, job) ∉ built before
  · by_cases hw : AtWork x.within before x.identity
    · cases ha.symm.trans (h.waiting hv hb hw).2
    · obtain ⟨_, _, _, -, hattempt, -⟩ := h.building hv hb hw
      have hx : x.built? = some (x.identity, job) := by simp only [Call.built?, hattempt, ha]
      exact List.mem_filterMap.mpr ⟨x, by simp, hx⟩
  · obtain ⟨job', hj⟩ := not_forall_not.mp hb
    cases ha.symm.trans (h.kept hv job' hj).2
    rw [built_append]
    exact List.mem_append_left _ hj

theorem AllLawful.given_of_built (hl : AllLawful r calls) (identity : String) (job : MethodJob)
    (h : (identity, job) ∈ built calls) : (job.key, job) ∈ answers calls := by
  obtain ⟨x, hx, hb⟩ := List.mem_filterMap.mp h
  obtain ⟨before, after, he⟩ := List.append_of_mem hx
  have hlaw := hl before x after he
  have hattempt : x.attempt ≠ none := fun hn => by simp [Call.built?, hn] at hb
  have ha : x.answer = .given job := by
    unfold Call.built? at hb
    split at hb
    next hg =>
      cases hb
      exact hg
    next => cases hb
  refine (mem_answers_iff calls _ _).mpr ⟨x, hx, ?_, ha⟩
  obtain ⟨hv, hnew, hfree⟩ := hlaw.of_attempt hattempt
  obtain ⟨_, _, o, -, -, -, hc⟩ := hlaw.building hv hnew hfree
  cases o with
  | none => cases hc.1.symm.trans ha
  | some o =>
    cases o with
    | success =>
      obtain ⟨_, hg, -, hkey, -⟩ := hc
      cases hg.symm.trans ha
      exact hkey.symm
    | failure _ => cases hc.symm.trans ha
    | panic _ => cases hc.symm.trans ha

theorem Keeps.eq_of_built (h : Keeps r [] calls f) {identity : String} {job job' : MethodJob}
    (hj : (identity, job) ∈ built calls) (hj' : (identity, job') ∈ built calls) : job = job' :=
  Option.some.inj (((h.mem_built_iff _ _).mpr hj).symm.trans ((h.mem_built_iff _ _).mpr hj'))

variable (h : Keeps r [] calls f) (hl : AllLawful r calls)
include h hl

theorem genuine_of_answer (hx : x ∈ answers calls) : x.2.Genuine r ∧ x.2.identity = x.1.identity ∧
    (x.1.identity, x.2) ∈ built calls ∧ r.Resolves x.1.group x.1.name := by
  obtain ⟨c, hc, hkey, ha⟩ := (mem_answers_iff calls x.1 x.2).mp hx
  obtain ⟨hv, hb⟩ := hl.built_of_given c hc x.2 ha
  rw [Call.identity, hkey] at hb
  exact ⟨(h.genuine _ _ hb).1, (h.genuine _ _ hb).2, hb, hkey ▸ hv.resolves⟩

theorem job_eq_iff (hx : x ∈ answers calls) (hy : y ∈ answers calls) :
    x.2 = y.2 ↔ x.1.identity = y.1.identity := by
  obtain ⟨-, hxi, hxb, -⟩ := genuine_of_answer h hl hx
  obtain ⟨-, hyi, hyb, -⟩ := genuine_of_answer h hl hy
  constructor
  · intro he
    rw [← hxi, he, hyi]
  · intro he
    exact h.eq_of_built hxb (he ▸ hyb)

theorem key_eq_iff : (∀ x ∈ answers calls, x.2.key = x.1) ↔
    ∀ x ∈ answers calls, ∀ y ∈ answers calls, x.1.identity = y.1.identity → x.1 = y.1 := by
  constructor
  · intro hk x hx y hy hid
    rw [← hk x hx, ← hk y hy, (job_eq_iff h hl hx hy).mpr hid]
  · intro hk x hx
    obtain ⟨hj, hi, hb, -⟩ := genuine_of_answer h hl hx
    exact hk _ (hl.given_of_built _ _ hb) x hx (hj.identity_eq.symm.trans hi)

/-- Where the mark of identities is in no name of a type, or in no name of a method, keys that are
answered do not share an identity. -/
theorem identity_injOn
    (hmark : (∀ type, r.hasType type = true → '@' ∉ type.toList) ∨
      ∀ type name, r.hasMethod type name = true → '@' ∉ name.toList)
    (hx : x ∈ answers calls) (hy : y ∈ answers calls)
    (hid : x.1.identity = y.1.identity) : x.1 = y.1 := by
  have hmx := (genuine_of_answer h hl hx).2.2.2.hasMethod
  have hmy := (genuine_of_answer h hl hy).2.2.2.hasMethod
  apply JobKey.eq_of_identity_eq x.1 y.1 hid
  obtain hmark | hmark := hmark
  · exact .inl ⟨hmark _ (r.hasType_of_hasMethod _ _ hmx), hmark _ (r.hasType_of_hasMethod _ _ hmy)⟩
  · exact .inr ⟨hmark _ _ hmx, hmark _ _ hmy⟩

theorem isOk_methodJob_iff_answered (key : JobKey) (journal : Journal) (hc : checkKey r key = .ok ()) :
    ((f.methodJob key journal).1.any Except.isOk = true) ↔
      (∃ x ∈ answers calls, x.1.identity = key.identity) ∨
        f.constructs key journal = some .success := by
  have hkept : ((f.slot key.identity).locked = false ∧ (f.slot key.identity).job.isSome = true) ↔
      ∃ x ∈ answers calls, x.1.identity = key.identity := by
    rw [Option.isSome_iff_exists]
    constructor
    · rintro ⟨-, job, hj⟩
      have hb := (h.mem_built_iff _ _).mp hj
      obtain ⟨hg, hi⟩ := h.genuine _ _ hb
      exact ⟨_, hl.given_of_built _ _ hb, hg.identity_eq.symm.trans hi⟩
    · rintro ⟨x, hx, hid⟩
      have hj := (h.mem_built_iff _ _).mpr (hid ▸ (genuine_of_answer h hl hx).2.2.1)
      refine ⟨Bool.eq_false_iff.mpr fun hlock => ?_, _, hj⟩
      cases hj.symm.trans (h.unbuilt _ hlock)
  rw [isOk_methodJob_iff, h.registry_eq, hc, hkept]
  exact and_iff_right rfl

end Answers

/-- A factory as calls leave it. -/
def Sound (f : Factory) (r : Registry) : Prop := ∃ calls, Keeps r [] calls f ∧ AllLawful r calls

theorem sound_ofRegistry (r : Registry) : (ofRegistry r).Sound r :=
  ⟨[], keeps_ofRegistry r, allLawful_nil r⟩

theorem Sound.registry_eq {f : Factory} {r : Registry} (h : f.Sound r) : f.registry = r := by
  obtain ⟨_, h, -⟩ := h
  exact h.registry_eq

theorem Sound.unlocked_and_isSome_iff {f : Factory} {r : Registry} (h : f.Sound r)
    (identity : String) : (f.slot identity).locked = false ∧ (f.slot identity).job.isSome = true ↔
      (f.slot identity).job.isSome = true := by
  obtain ⟨_, hk, -⟩ := h
  refine and_iff_right_of_imp fun hj => Bool.eq_false_iff.mpr fun hl => ?_
  simp [hk.unbuilt identity hl] at hj

theorem Sound.methodJob {f : Factory} {r : Registry} (h : f.Sound r) (key : JobKey)
    (journal : Journal) : (f.methodJob key journal).2.1.Sound r ∧
      (∃ added, (f.methodJob key journal).2.2 = journal ++ added ∧
        added.Perm ((f.calls key journal).filterMap Call.event?)) ∧
      ∀ job, (f.methodJob key journal).1 = some (.ok job) → job.Genuine r := by
  obtain ⟨earlier, hk, hl⟩ := h
  obtain ⟨hkeeps, hlawful, hjournal, inner, x, hcalls, -, -, -, -, ha, -⟩ := hk.traced hl key journal
  refine ⟨⟨_, hkeeps, hlawful⟩, hjournal, fun job hj => ?_⟩
  rw [hj] at ha
  have hx : x ∈ earlier ++ f.calls key journal := by simp [hcalls]
  exact (hkeeps.genuine _ _ (hlawful.built_of_given x hx job ha).2).1

/-- Whatever calls came before, by users and by constructors, a job runs the registered method that
names it, and nothing else; it is named by a key with the identity of the key that was asked for. Two
calls get the same job if and only if their keys have the same identity. So every call gets the job of
its own key, and different keys get different jobs, if and only if no two keys that are answered share
an identity, as is so where the mark of identities is in no name of a type or in no name of a method. -/
theorem jobs_run_their_identity (r : Registry) (rs : List Request) :
    let answers := answers ((ofRegistry r).serve rs).1
    (∀ x ∈ answers, x.2.key.identity = x.1.identity ∧
        ∃ m, r.method x.2.key.group x.2.key.name = .ok m ∧ ∀ journal, ∃ run,
          x.2.bound.call journal = (m.behavior run,
            journal ++ [.called x.2.key.group x.2.key.name x.2.bound.target.number run])) ∧
      (∀ x ∈ answers, ∀ y ∈ answers, x.2 = y.2 ↔ x.1.identity = y.1.identity) ∧
      (((∀ x ∈ answers, x.2.key = x.1) ∧ ∀ x ∈ answers, ∀ y ∈ answers, x.2 = y.2 ↔ x.1 = y.1) ↔
        ∀ x ∈ answers, ∀ y ∈ answers, x.1.identity = y.1.identity → x.1 = y.1) ∧
      ((∀ type, r.hasType type = true → '@' ∉ type.toList) ∨
          (∀ type name, r.hasMethod type name = true → '@' ∉ name.toList) →
        ∀ x ∈ answers, ∀ y ∈ answers, x.1.identity = y.1.identity → x.1 = y.1) ∧
      ∀ key journal, checkKey r key = .ok () →
        ((((ofRegistry r).serve rs).2.methodJob key journal).1.any Except.isOk = true ↔
          (∃ x ∈ answers, x.1.identity = key.identity) ∨
            ((ofRegistry r).serve rs).2.constructs key journal = some .success) := by
  intro answers
  obtain ⟨h, hl⟩ := (keeps_ofRegistry r).serve (allLawful_nil r) rs
  rw [List.nil_append] at h hl
  refine ⟨?_, fun x hx y hy => job_eq_iff h hl hx hy, ⟨fun hk => (key_eq_iff h hl).mp hk.1, ?_⟩,
    fun hmark x hx y hy => identity_injOn h hl hmark hx hy, isOk_methodJob_iff_answered h hl⟩
  · intro x hx
    obtain ⟨hj, hid, -⟩ := genuine_of_answer h hl hx
    exact ⟨hj.identity_eq.symm.trans hid, _, hj.registered.method_eq, hj.registered.call⟩
  · intro hk
    refine ⟨(key_eq_iff h hl).mpr hk, fun x hx y hy => ?_⟩
    rw [job_eq_iff h hl hx hy]
    exact ⟨hk x hx y hy, congrArg JobKey.identity⟩

/-- The method `c` of a type with the mark in its name, and a method with the mark in its name of
another type: whichever is asked for first is run for both. -/
theorem colliding_keys_share_a_job :
    let r : Registry := [("a@b", ⟨"First", fun _ => .done .success, [("c", fun _ => .success)]⟩),
      ("a", ⟨"Second", fun _ => .done .success, [("b@c", fun _ => .success)]⟩)]
    let first : JobKey := ⟨"c", "a@b"⟩
    let second : JobKey := ⟨"b@c", "a"⟩
    checkKey r first = .ok () ∧ checkKey r second = .ok () ∧ first ≠ second ∧
      ∃ job, answers ((ofRegistry r).serve [(first, []), (second, [])]).1 =
          [(first, job), (second, job)] ∧ job.key = first := by
  refine ⟨by decide +kernel, by decide +kernel, by decide, _, rfl, rfl⟩

end Factory

end CronTasks.Trigger
