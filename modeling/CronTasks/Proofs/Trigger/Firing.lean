import CronTasks.Proofs.Firing
import CronTasks.Proofs.Trigger.Factory
import CronTasks.Proofs.Trigger.Ledger

namespace CronTasks.Trigger

open Calendar

namespace Engine

/-- What a listener adds to the journal: the bridge all that the cron listeners are told. -/
def heard (said : List Event) (note : String → Event) : JobListener → List Event
  | .bridge => said
  | .idle _ => []
  | .watcher name _ _ => [note name]

theorem tellAll_eq (e : Engine) (relay : Act (Audience × Journal)) (note : String → Event)
    (own : JobListener → Outcome) (said : List Event)
    (hr : ∀ journal, relay (e.audience, journal) = (.success, e.audience, journal ++ said))
    (hs : Journal.course said = said) (hn : ∀ name, (note name).inCourse = false) :
    ∃ added, tellAll relay note own e = (.success, { e with journal := e.journal ++ added }) ∧
      (e.jobListeners.count .bridge = 1 → Journal.course added = said) := by
  apply Journal.exists_added (tell relay note own) (fun journal => { e with journal })
    (heard said note) .bridge
  · intro l journal
    cases l with
    | bridge => simp only [tell, hr, heard]
    | idle => simp only [tell, heard, List.append_nil]
    | watcher => rfl
  · exact hs
  · intro l hl
    cases l with
    | bridge => exact absurd rfl hl
    | idle => rfl
    | watcher name _ _ => simp [heard, Journal.course, hn name]

theorem notifyWasExecuted_eq (e : Engine) (h : e.audience.Steady) (b : Bundle) (hasInstance : Bool)
    (error : Option String) : ∃ later, notifyWasExecuted b hasInstance error e =
        (.success, { e with journal := e.journal ++ later }) ∧
      (e.jobListeners.count .bridge = 1 → Journal.course later =
        completed e.audience.listening.toList (firing b) (error.elim .succeeded .failed)) := by
  cases error <;>
    exact e.tellAll_eq _ _ _ _ (h.dispatchCompleted _ (firing b)) (Journal.course_completed _ _ _)
      fun _ => rfl

theorem perform_eq (e : Engine) (h : e.audience.Steady) (b : Bundle) (job : MethodJob) :
    ∃ told later : Journal, perform b job e =
        (.success, { e with journal := (job.bound.call (e.journal ++ told)).2 ++ later }) ∧
      (e.jobListeners.count .bridge = 1 →
        Journal.course told = hooked e.audience.listening.toList (firing b) .before ∧
          Journal.course later = completed e.audience.listening.toList (firing b)
            ((job.bound.call (e.journal ++ told)).1.ending "job" Failure.chain)) := by
  obtain ⟨told, htold, ht⟩ := e.tellAll_eq _ (.toBeExecuted · (report b true))
    JobListener.toBeExecuted _ (h.dispatch .before (firing b)) (Journal.course_hooked _ _ _)
    fun _ => rfl
  rcases hx : job.bound.call (e.journal ++ told) with ⟨outcome, journal⟩
  have hrest : ∃ error, perform b job e = notifyWasExecuted b true error { e with journal } ∧
      outcome.ending "job" Failure.chain = error.elim .succeeded .failed := by
    rw [perform, notifyToBeExecuted, Act.andThen_of_success _ htold]
    simp only [execute, hx, Outcome.ending]
    cases outcome.caught "job" with
    | ok => exact ⟨none, rfl, rfl⟩
    | error failure => exact ⟨some failure.chain, rfl, rfl⟩
  obtain ⟨error, hperform, hending⟩ := hrest
  obtain ⟨later, hlater, hl⟩ := notifyWasExecuted_eq { e with journal } h b true error
  refine ⟨told, later, ?_, fun hcount => ⟨ht hcount, ?_⟩⟩
  · rw [hx, hperform, hlater]
  · rw [hx, hl hcount, hending]

theorem check_eq_ok_iff (t : JobType) : t.check = .ok () ↔ t = .method := by
  cases t <;> simp [JobType.check]

theorem newJob_eq (e : Engine) (f : Factory) (hf : e.factory = some f) (b : Bundle)
    (hc : b.detail.type.check = .ok ()) : ∃ made,
    e.newJob b = (made, { e with
      factory := some (f.methodJob b.detail.key e.journal).2.1
      journal := (f.methodJob b.detail.key e.journal).2.2 }) ∧
      Factory.Answer.of made = .of (f.methodJob b.detail.key e.journal).1 := by
  simp only [newJob, hf, hc]
  refine ⟨_, rfl, ?_⟩
  rcases (f.methodJob b.detail.key e.journal).1 with _ | (_ | _) | _
  all_goals rfl

theorem any_isOk_newJob_iff (e : Engine) (f : Factory) (hf : e.factory = some f) (b : Bundle) :
    (e.newJob b).1.any Except.isOk = true ↔ b.detail.type = .method ∧
      checkKey f.registry b.detail.key = .ok () ∧
        ((f.slot b.detail.key.identity).locked = false ∧
            (f.slot b.detail.key.identity).job.isSome = true ∨
          f.constructs b.detail.key e.journal = some .success) := by
  rw [← check_eq_ok_iff, ← f.isOk_methodJob_iff]
  cases hc : b.detail.type.check with
  | error err =>
    have hn : (e.newJob b).1.any Except.isOk = false := by
      simp only [newJob, hf, hc]
      split <;> rfl
    simp [hn]
  | ok =>
    obtain ⟨made, hn, hmade⟩ := e.newJob_eq f hf b hc
    rw [hn, and_iff_right rfl, Factory.Answer.any_isOk_iff, Factory.Answer.any_isOk_iff, hmade]

/-- A job is refused for its type, of which all are told; or the factory is asked for it. -/
theorem newJob_cases (e : Engine) (h : e.audience.Steady) (f : Factory) (hf : e.factory = some f)
    {r : Registry} (hs : f.Sound r) (b : Bundle) :
    (∃ err later, b.detail.type.check = .error err ∧
        e.newJob b = (some (.error (.error (.instantiation b.detail.key.display err.message))),
          { e with journal := e.journal ++ later }) ∧
        (e.jobListeners.count .bridge = 1 → Journal.course later =
          completed e.audience.listening.toList (firing b) (.failed err.message))) ∨
      ∃ made f' added, b.detail.type.check = .ok () ∧
        e.newJob b = (made, { e with factory := some f', journal := e.journal ++ added }) ∧
        added.Perm ((f.calls b.detail.key e.journal).filterMap Factory.Call.event?) ∧
        f'.Sound r ∧ ∀ job, made = some (.ok job) → job.Genuine r := by
  cases hc : b.detail.type.check with
  | error err =>
    obtain ⟨later, hlater, hl⟩ := e.notifyWasExecuted_eq h b false (some err.message)
    exact .inl ⟨err, later, rfl, by simp only [newJob, hf, hc, hlater], hl⟩
  | ok =>
    obtain ⟨made, hn, hmade⟩ := e.newJob_eq f hf b hc
    obtain ⟨hs', ⟨added, hadded, hp⟩, hgenuine⟩ := hs.methodJob b.detail.key e.journal
    refine .inr ⟨made, _, added, rfl, hadded ▸ hn, hp, hs', fun job hj => hgenuine job ?_⟩
    rwa [← Factory.Answer.of_eq_given_iff, ← hmade, Factory.Answer.of_eq_given_iff]
theorem any_isOk_iff {ε : Type} (made : Option (Except ε MethodJob)) :
    made.any Except.isOk = true ↔ ∃ job, made = some (.ok job) := by
  simp only [Factory.Answer.any_isOk_iff, Factory.Answer.of_eq_given_iff]

theorem run_of_no_job (e e' : Engine) (b : Bundle)
    (made : Option (Except (Raised TriggerError) MethodJob)) (hn : e.newJob b = (made, e'))
    (hmade : made.any Except.isOk = false) : ∃ outcome, run b e = (outcome, e') := by
  unfold run
  rw [hn]
  rcases made with _ | (_ | _) | job
  · exact ⟨_, rfl⟩
  · exact ⟨_, rfl⟩
  · exact ⟨_, rfl⟩
  · cases hmade

theorem run_of_ok (e e' : Engine) (b : Bundle) (job : MethodJob)
    (hn : e.newJob b = (some (.ok job), e')) : run b e = perform b job e' := by
  unfold run
  rw [hn]

/-- What firings need of an engine to reach the cron listeners of its repository. -/
structure Attended (r : Registry) (e : Engine) : Prop where
  steady : e.audience.Steady
  bridge : e.jobListeners.count .bridge ≤ 1
  factory : ∃ f, e.factory = some f ∧ f.Sound r

/-- What is noted when a factory is asked for a job: the constructors that are called. -/
def Asks (e : Engine) (b : Bundle) (before after : Journal) : Prop :=
  ∃ f added, e.factory = some f ∧ after = before ++ added ∧
    added.Perm ((f.calls b.detail.key before).filterMap Factory.Call.event?)

theorem Asks.quiet {e : Engine} {b : Bundle} {before after : Journal} (h : e.Asks b before after) :
    ∃ quiet : List Event, (∀ x ∈ quiet, x.isCompletion = false) ∧
      after.course = before.course ++ quiet := by
  obtain ⟨f, added, -, rfl, hp⟩ := h
  refine ⟨Journal.course added, fun x hx => ?_, Journal.course_append _ _⟩
  obtain ⟨call, -, hcall⟩ := List.mem_filterMap.mp (hp.mem_iff.mp (List.mem_of_mem_filter hx))
  obtain ⟨_, -, rfl⟩ := Option.map_eq_some_iff.mp hcall
  rfl

namespace Attended

variable {r : Registry} {e : Engine}

theorem count_bridge (h : e.Attended r) (hb : .bridge ∈ e.jobListeners) :
    e.jobListeners.count .bridge = 1 :=
  Nat.le_antisymm h.bridge (List.count_pos_iff.mpr hb)

theorem run_eq (h : e.Attended r) (b : Bundle) : ∃ outcome f journal,
    Engine.run b e = (outcome, { e with factory := some f, journal }) ∧ f.Sound r := by
  obtain ⟨f, hf, hs⟩ := h.factory
  -- in all cases the engine is the one that the request for the job leaves behind
  obtain ⟨_, _, -, hn, -⟩ | ⟨made, f', added, -, hn, -, hs', -⟩ := e.newJob_cases h.steady f hf hs b
  · obtain ⟨outcome, hrun⟩ := e.run_of_no_job _ b _ hn rfl
    exact ⟨outcome, f, _, by rw [hrun, ← hf], hs⟩
  · cases hmade : made.any Except.isOk with
    | false =>
      obtain ⟨outcome, hrun⟩ := e.run_of_no_job _ b _ hn hmade
      exact ⟨outcome, f', _, hrun, hs'⟩
    | true =>
      obtain ⟨job, rfl⟩ := (any_isOk_iff made).mp hmade
      obtain ⟨_, _, hp, -⟩ :=
        perform_eq { e with factory := some f', journal := e.journal ++ added } h.steady b job
      exact ⟨_, f', _, (e.run_of_ok _ b job hn).trans hp, hs'⟩

theorem run (h : e.Attended r) (b : Bundle) : (Engine.run b e).2.Attended r := by
  obtain ⟨_, f, _, hr, hs⟩ := h.run_eq b
  rw [hr]
  exact ⟨h.steady, h.bridge, f, rfl, hs⟩

theorem refused (h : e.Attended r) (b : Bundle) (err : RepositoryError)
    (hc : b.detail.type.check = .error err) (hb : .bridge ∈ e.jobListeners) :
    (Engine.run b e).2.journal.course =
      e.journal.course ++ completed e.audience.listening.toList (firing b) (.failed err.message) := by
  obtain ⟨f, hf, hs⟩ := h.factory
  obtain ⟨_, _, hc', hn, hl⟩ | ⟨_, _, _, hc', -⟩ := e.newJob_cases h.steady f hf hs b
  · cases hc.symm.trans hc'
    obtain ⟨_, hrun⟩ := e.run_of_no_job _ b _ hn rfl
    rw [hrun, Journal.course_append, hl (h.count_bridge hb)]
  · cases hc.symm.trans hc'

theorem unbuilt (h : e.Attended r) (b : Bundle) (ht : b.detail.type = .method)
    (hn : (e.newJob b).1.any Except.isOk = false) :
    e.Asks b e.journal (Engine.run b e).2.journal := by
  obtain ⟨f, hf, hs⟩ := h.factory
  obtain ⟨_, _, hc, -⟩ | ⟨made, _, added, -, hn', hp, -⟩ := e.newJob_cases h.steady f hf hs b
  · cases ((check_eq_ok_iff _).mpr ht).symm.trans hc
  · rw [hn'] at hn
    obtain ⟨_, hrun⟩ := e.run_of_no_job _ b _ hn' hn
    exact ⟨f, added, hf, by rw [hrun], hp⟩

theorem follows (h : e.Attended r) (b : Bundle) (job : MethodJob)
    (hj : (e.newJob b).1 = some (.ok job)) (hb : .bridge ∈ e.jobListeners) :
    (Engine.run b e).1 = .success ∧ e.Asks b e.journal (e.newJob b).2.journal ∧
      Follows e.audience.listening.toList (firing b) job.bound.call
        (Outcome.ending "job" Failure.chain) (e.newJob b).2.journal (Engine.run b e).2.journal := by
  obtain ⟨f, hf, hs⟩ := h.factory
  obtain ⟨_, _, -, hn, -⟩ | ⟨made, f', added, -, hn, hp, -, hg⟩ :=
    e.newJob_cases h.steady f hf hs b
  · rw [hn] at hj
    cases hj
  · rw [hn] at hj
    obtain rfl : made = some (.ok job) := hj
    obtain ⟨told, later, hperform, hcourse⟩ :=
      perform_eq { e with factory := some f', journal := e.journal ++ added } h.steady b job
    obtain ⟨run, hcall⟩ := (hg job rfl).registered.call (e.journal ++ added ++ told)
    obtain ⟨ht, ha⟩ := hcourse (h.count_bridge hb)
    rw [e.run_of_ok _ b job hn, hperform, hn]
    rw [hcall] at ha ⊢
    exact ⟨rfl, ⟨f, added, hf, rfl, hp⟩,
      Follows.of_added (e.journal ++ added) told later _ _ ht hcall rfl ha⟩

/-- The cron listeners are told how a firing ended if its job is refused for its type, or there. -/
theorem reported_iff (h : e.Attended r) (b : Bundle) (hb : .bridge ∈ e.jobListeners) :
    Reported e.audience.listening.toList (firing b) e.journal (Engine.run b e).2.journal ↔
      e.audience.listening.toList = [] ∨ b.detail.type ≠ .method ∨
        (e.newJob b).1.any Except.isOk = true := by
  by_cases ht : b.detail.type = .method
  · cases hmade : (e.newJob b).1.any Except.isOk with
    | false =>
      obtain ⟨quiet, hq, hc⟩ := (h.unbuilt b ht hmade).quiet
      rw [reported_iff_of_quiet _ _ _ _ quiet hq hc]
      simp [ht]
    | true =>
      obtain ⟨job, hj⟩ := (any_isOk_iff _).mp hmade
      obtain ⟨-, hasks, hf⟩ := h.follows b job hj hb
      obtain ⟨quiet, hq, hquiet⟩ := hasks.quiet
      obtain ⟨earlier, ending, he, hcourse⟩ := hf.reported
      refine iff_of_true ⟨quiet ++ earlier, ending, fun x hx => ?_, ?_⟩ (.inr (.inr rfl))
      · exact (List.mem_append.mp hx).elim (hq x) (he x)
      · simp only [hcourse, hquiet, List.append_assoc]
  · obtain ⟨err, hc⟩ : ∃ err, b.detail.type.check = .error err := by
      cases hc : b.detail.type.check with
      | error err => exact ⟨err, rfl⟩
      | ok => exact absurd ((check_eq_ok_iff _).mp hc) ht
    refine iff_of_true ⟨[], .failed err.message, by simp, ?_⟩ (.inr (.inl ht))
    simpa using h.refused b err hc hb

theorem addJobListener (h : e.Attended r) (l : JobListener) : (e.addJobListener l).Attended r := by
  refine ⟨h.steady, ?_, h.factory⟩
  have hle : (e.jobListeners.filter (·.name != l.name)).count .bridge ≤ 1 :=
    Nat.le_trans (List.filter_sublist.count_le _) h.bridge
  simp only [Engine.addJobListener, List.count_append]
  by_cases hl : l = .bridge
  · -- a bridge takes the place of any listener of its name, so of the old one
    have hnot : .bridge ∉ e.jobListeners.filter (·.name != l.name) := by simp [hl]
    have hnone := List.count_eq_zero.mpr hnot
    have hone : [l].count .bridge = 1 := hl ▸ List.count_singleton_self
    omega
  · rwa [List.count_singleton, if_neg (by simpa using hl)]

theorem removeJobListener (h : e.Attended r) (name : String) :
    (e.removeJobListener name).2.Attended r :=
  ⟨h.steady, Nat.le_trans (List.filter_sublist.count_le _) h.bridge, h.factory⟩

end Attended

end Engine

namespace Repository

inductive Step
  | call (c : Call)
  | addListener (name : String) (l : CronListener) (hl : l.Plain)
  | removeListener (name : String)
  | addJobListener (l : JobListener)
  | removeJobListener (name : String)
  | fire (b : Bundle)

def step (repo : Repository) : Step → Repository
  | .call c => (repo.call c).2
  | .addListener name l _ => repo.addListener name l
  | .removeListener name => (repo.removeListener name).2
  | .addJobListener l => { repo with engine := repo.engine.addJobListener l }
  | .removeJobListener name => { repo with engine := (repo.engine.removeJobListener name).2 }
  | .fire b => { repo with engine := (Engine.run b repo.engine).2 }

def steps (repo : Repository) (ss : List Step) : Repository := ss.foldl step repo

theorem call_cases (repo : Repository) (c : Call) : ∃ lifecycle running timer store,
    (repo.call c).2 =
      { repo with lifecycle, engine := { repo.engine with running, timer, store } } := by
  cases c with
  | register host text b =>
    obtain ⟨_, hr⟩ | ⟨_, _, _, _, _, _, _, _, _, hr⟩ := repo.register_cases host text b
    · exact ⟨_, _, _, _, by rw [call, hr]⟩
    · exact ⟨_, _, _, _, by rw [call, hr]⟩
  | update host id text =>
    obtain ⟨_, hr⟩ | ⟨_, _, _, _, _, _, _, _, _, _, _, _, hr⟩ := repo.update_cases host id text
    · exact ⟨_, _, _, _, by rw [call, hr]⟩
    · exact ⟨_, _, _, _, by rw [call, hr]⟩
  | remove id =>
    obtain ⟨_, hr⟩ | ⟨_, _, _, hr⟩ := repo.remove_cases id
    · exact ⟨_, _, _, _, by rw [call, hr]⟩
    · exact ⟨_, _, _, _, by rw [call, hr]⟩
  | info id => exact ⟨_, _, _, _, rfl⟩
  | all => exact ⟨_, _, _, _, rfl⟩
  | start host =>
    simp only [call, start, Lifecycle.start, Lifecycle.moveTo]
    split
    · exact ⟨_, _, _, _, rfl⟩
    · obtain hs | ⟨_, hs⟩ | ⟨_, _, hs⟩ | ⟨_, hs⟩ := repo.engine.start_answers host
      all_goals
        simp only [hs, Raised.mapError]
        exact ⟨_, _, _, _, rfl⟩
  | stop =>
    simp only [call, stop, Lifecycle.stop, Lifecycle.moveTo]
    split
    · exact ⟨_, _, _, _, rfl⟩
    · exact ⟨_, _, _, _, rfl⟩
  | tick now =>
    simp only [call]
    split
    · exact ⟨_, _, _, _, rfl⟩
    · exact ⟨_, _, _, _, rfl⟩

theorem attended_step (repo : Repository) (r : Registry) (h : repo.engine.Attended r) (s : Step) :
    (repo.step s).engine.Attended r := by
  cases s with
  | call c =>
    obtain ⟨_, _, _, _, hc⟩ := repo.call_cases c
    rw [step, hc]
    exact ⟨h.steady, h.bridge, h.factory⟩
  | addListener name l hl => exact ⟨(h.steady.introduce name l hl).add name, h.bridge, h.factory⟩
  | removeListener name => exact ⟨h.steady.remove name, h.bridge, h.factory⟩
  | addJobListener l => exact h.addJobListener l
  | removeJobListener name => exact h.removeJobListener name
  | fire b => exact h.run b

theorem attended_steps (repo : Repository) (r : Registry) (h : repo.engine.Attended r)
    (ss : List Step) : (repo.steps ss).engine.Attended r := by
  induction ss generalizing repo with
  | nil => exact h
  | cons s ss ih => exact ih (repo.step s) (repo.attended_step r h s)

theorem attended_attach (name : String) (threads : Threads) (registry : Registry)
    (zone : Option Zone) : (attach (.fresh name threads) registry zone).engine.Attended registry :=
  ⟨Audience.steady_empty, Nat.le_refl 1, _, rfl, Factory.sound_ofRegistry registry⟩

/-- Whatever became of a repository, a firing is reported to those who listen if its type is not
that of methods, which is a failure, or its job is there. Where the key names no method, or the
instance cannot be built, nobody is told anything. -/
theorem firing_reported_iff (name : String) (threads : Threads) (registry : Registry)
    (zone : Option Zone) (ss : List Step) (b : Bundle) :
    let e := ((attach (.fresh name threads) registry zone).steps ss).engine
    let names := e.audience.listening.toList
    let after := (Engine.run b e).2.journal
    .bridge ∈ e.jobListeners →
      (Reported names (Engine.firing b) e.journal after ↔
        names = [] ∨ b.detail.type ≠ .method ∨ (e.newJob b).1.any Except.isOk = true) ∧
      (∀ err, b.detail.type.check = .error err → after.course =
        e.journal.course ++ completed names (Engine.firing b) (.failed err.message)) ∧
      ((e.newJob b).1.any Except.isOk = true ↔ b.detail.type = .method ∧
        checkKey registry b.detail.key = .ok () ∧ ∃ f, e.factory = some f ∧
          ((f.slot b.detail.key.identity).job.isSome = true ∨
            f.constructs b.detail.key e.journal = some .success)) ∧
      (b.detail.type = .method → (e.newJob b).1.any Except.isOk = false →
        e.Asks b e.journal after) := by
  intro e names after hb
  have h : e.Attended registry :=
    attended_steps _ _ (attended_attach name threads registry zone) ss
  refine ⟨h.reported_iff b hb, fun err hc => h.refused b err hc hb, ?_, h.unbuilt b⟩
  obtain ⟨f, hf, hs⟩ := h.factory
  rw [e.any_isOk_newJob_iff f hf b, hs.registry_eq]
  simp only [hf, Option.some.injEq, exists_eq_left', hs.unlocked_and_isSome_iff]

theorem firing_reported_though_all_panic :
    let registry : Registry := [("app.Reports",
      ⟨"app.Reports", fun _ => .done .success, [("daily", fun _ => .panic .other)]⟩)]
    let audit : CronListener := ⟨some 1, .outcome (.panic .other), .outcome (.panic .other),
      .outcome (.panic .other), .outcome (.panic .other)⟩
    let e := ((attach (.fresh "m" .single) registry none).addListener "audit" audit).engine
    let b : Bundle := ⟨.ofMethod "app.Reports" "daily",
      Engine.manual ⟨"daily", "app.Reports"⟩ 1893456000000, 1893456000000, 1893456000000⟩
    .bridge ∈ e.jobListeners ∧
      Reported ["audit"] (Engine.firing b) e.journal (Engine.run b e).2.journal := by
  intro registry audit e b
  have hplain : audit.Plain := fun hook => by cases hook <;> exact ⟨_, rfl⟩
  have hb : .bridge ∈ e.jobListeners := List.mem_singleton_self _
  have hj : (e.newJob b).1.any Except.isOk = true := by decide +kernel
  exact ⟨hb, (firing_reported_iff "m" .single registry none
    [.addListener "audit" audit hplain] b hb).1.mpr (.inr (.inr hj))⟩

/-- An instance that cannot be built: the listener is told neither that the firing failed nor that
it is over. -/
theorem unbuilt_firing_tells_nobody :
    let registry : Registry := [("app.Reports",
      ⟨"app.Reports", fun _ => .done (.failure (.plain "no database")), [("daily", fun _ => .success)]⟩)]
    let audit : CronListener :=
      ⟨none, .outcome .success, .outcome .success, .outcome .success, .outcome .success⟩
    let e := ((attach (.fresh "m" .single) registry none).addListener "audit" audit).engine
    let b : Bundle := ⟨.ofMethod "app.Reports" "daily",
      Engine.manual ⟨"daily", "app.Reports"⟩ 1893456000000, 1893456000000, 1893456000000⟩
    .bridge ∈ e.jobListeners ∧ e.audience.listening.toList = ["audit"] ∧
      (Engine.run b e).2.journal = [.built "app.Reports" 1] ∧
      ¬Reported ["audit"] (Engine.firing b) e.journal (Engine.run b e).2.journal := by
  intro registry audit e b
  have hj : (Engine.run b e).2.journal = [.built "app.Reports" 1] := by decide +kernel
  refine ⟨List.mem_singleton_self _, rfl, hj, ?_⟩
  rw [hj, reported_iff_of_quiet _ _ _ _ [.built "app.Reports" 1] (by decide) rfl]
  exact List.cons_ne_nil _ _

end Repository

end CronTasks.Trigger
