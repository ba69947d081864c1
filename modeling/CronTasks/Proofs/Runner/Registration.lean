import CronTasks.Proofs.Methods
import CronTasks.Proofs.Runner.Ledger
import CronTasks.Proofs.Verdict

namespace CronTasks.Runner

open Calendar Cron Verdict

/-- The faults of a method that is to be run, in the order in which they are looked for. -/
def methodFaults (r : Registry) (type name : String) (journal : Journal) : List (Bool × Verdict) :=
  [(Text.blank type || Text.blank name, .invalidArgument),
    (!r.hasType type || !r.hasMethod type name, .illegalState),
    ((r.construction type journal).any Outcome.fails, .internal),
    ((r.construction type journal).any Outcome.panics, .panicked)]

namespace Repository

def faults (repo : Repository) (host : Host) (text : String) (b : Body) : List (Bool × Verdict) :=
  (Text.blank text, .missingArgument) ::
  (!b.isRunnable && !(b.isMethod && repo.registry.isSome), .unsupportedBody) ::
  (!(Pattern.parse text).isOk, .invalidExpression) ::
  (match b, repo.registry with
    | .method type name, some r => methodFaults r type name repo.engine.journal
    | _, _ => []) ++
  [(!host.searches, .panicked)]

/-- What a registration with some verdict adds to the journal. -/
def construction (repo : Repository) (b : Body) (v : Verdict) : List Event :=
  match b with
  | .method type _ =>
    if v ∈ [.registered, .internal, .panicked] then
      [.built type (repo.engine.journal.nextNumber type)]
    else []
  | _ => []

theorem register_of_accept (repo : Repository) (host : Host) (text : String) (b : Body) (p : Pattern)
    (w : Work) (journal : Journal) (ha : repo.accept text b = .ok p)
    (hw : repo.work b = (.ok w, journal)) :
    of (repo.register host text b).1 = firstOf [(!host.searches, .panicked)] ∧
      (repo.register host text b).2.engine.journal = journal := by
  have hp := ne_nil_of_parse text p (repo.parse_of_accept text b p ha)
  simp only [register, ha, hw]
  obtain ⟨hn, err, hs⟩ | ⟨hn, hs⟩ := { repo.engine with journal }.schedule_cases host p hp w
  · rw [hn, hs]
    exact ⟨rfl, rfl⟩
  · rw [hn, hs]
    exact ⟨rfl, rfl⟩

theorem register_of_method (repo : Repository) (host : Host) (text : String) (p : Pattern)
    (type name : String) (r : Registry) (hr : repo.registry = some r)
    (ha : repo.accept text (.method type name) = .ok p) :
    let answer := repo.register host text (.method type name)
    of answer.1 = firstOf (methodFaults r type name repo.engine.journal ++
        [(!host.searches, .panicked)]) ∧
      answer.2.engine.journal =
        repo.engine.journal ++ repo.construction (.method type name) (of answer.1) := by
  have hwork : repo.work (.method type name) = Work.ofMethod r type name repo.engine.journal := by
    simp only [work, hr]
  by_cases hb : (Text.blank type || Text.blank name) = true
  · simp only [register, ha, hwork, Work.ofMethod, hb, methodFaults]
    exact ⟨rfl, (List.append_nil _).symm⟩
  · cases hm : r.hasMethod type name with
    | false =>
      obtain ⟨err, herr, hres⟩ := r.resolve_of_not_hasMethod type name repo.engine.journal hm
      simp only [register, ha, hwork, Work.ofMethod, hb, methodFaults, hres, hm, Bool.not_false,
        Bool.or_true]
      obtain rfl | rfl := herr
      · exact ⟨rfl, (List.append_nil _).symm⟩
      · exact ⟨rfl, (List.append_nil _).symm⟩
    | true =>
      obtain ⟨entry, bound, he, -, -, -, hres⟩ :=
        r.resolve_of_hasMethod type name repo.engine.journal hm
      have ht := r.hasType_of_hasMethod type name hm
      simp only [methodFaults, Registry.construction, he, hb, hm, ht, Option.map_some]
      -- the names are good, so that the constructor is called
      cases hc : (entry.construct (repo.engine.journal.nextNumber type)).alone with
      | success =>
        obtain ⟨hv, hj⟩ := repo.register_of_accept host text _ p _ _ ha
          (by simp only [hwork, Work.ofMethod, hb, hres, hc]; rfl)
        rw [hv, hj]
        cases host.searches with
        | false => exact ⟨rfl, rfl⟩
        | true => exact ⟨rfl, rfl⟩
      | failure e =>
        simp only [register, ha, hwork, Work.ofMethod, hb, hres, hc]
        exact ⟨rfl, rfl⟩
      | panic p =>
        simp only [register, ha, hwork, Work.ofMethod, hb, hres, hc]
        exact ⟨rfl, rfl⟩

theorem construction_of_refused (repo : Repository) (b : Body) (v : Verdict)
    (hv : v ∉ [.registered, .internal, .panicked]) : repo.construction b v = [] := by
  cases b with
  | method type name => exact if_neg hv
  | _ => rfl

theorem register_of_refused (repo : Repository) (host : Host) (text : String) (b : Body)
    (err : RepositoryError) (ha : repo.accept text b = .error err)
    (hv : ofError err ∉ [.registered, .internal, .panicked])
    (hf : firstOf (repo.faults host text b) = ofError err) :
    of (repo.register host text b).1 = firstOf (repo.faults host text b) ∧
      (repo.register host text b).2.engine.journal =
        repo.engine.journal ++ repo.construction b (of (repo.register host text b).1) := by
  have hr : repo.register host text b = (.error (.error err), repo) := by simp only [register, ha]
  rw [hr, hf]
  refine ⟨rfl, ?_⟩
  rw [of, repo.construction_of_refused b _ hv, List.append_nil]

/-- A registration is refused for the first of its faults. The constructor of a method's type is
called if neither the arguments nor the names are at fault. -/
theorem verdict_register (repo : Repository) (host : Host) (text : String) (b : Body) :
    of (repo.register host text b).1 = firstOf (repo.faults host text b) ∧
      (repo.register host text b).2.engine.journal =
        repo.engine.journal ++ repo.construction b (of (repo.register host text b).1) := by
  have hs : (!b.isRunnable && !(b.isMethod && repo.registry.isSome)) = !repo.supports b := by
    cases b with
    | method type name => simp [Body.isRunnable, Body.isMethod, supports]
    | _ => rfl
  by_cases hb : Text.blank text = true
  · apply repo.register_of_refused host text b (.missingArgument "expression") _ (by decide)
    · simp only [faults, hb]
      rfl
    · simp only [accept, requireText, hb]
      rfl
  · have ha : repo.accept text b =
        if !repo.supports b then .error (.unsupportedBody b.kind engineName) else parse text := by
      simp only [accept, requireText, hb]
      rfl
    by_cases hsup : repo.supports b = true
    · cases hp : Pattern.parse text with
      | error err =>
        apply repo.register_of_refused host text b (.invalidExpression (.pattern err)) _
          (by simp [ofError])
        · simp only [faults, hb, hs, hsup, hp]
          rfl
        · simp only [ha, hsup, parse, hp]
          rfl
      | ok p =>
        have hok : repo.accept text b = .ok p := by
          simp only [ha, hsup]
          exact (parse_eq_ok_iff text p).mpr hp
        cases b with
        | runnable work =>
          obtain ⟨hv, hj⟩ := repo.register_of_accept host text _ p _ _ hok rfl
          rw [hv, hj]
          simp only [faults, hb, hs, hsup, hp]
          exact ⟨rfl, (List.append_nil _).symm⟩
        | method type name =>
          obtain ⟨r, hr⟩ := Option.isSome_iff_exists.mp hsup
          simp only [faults, hb, hp, hr]
          exact repo.register_of_method host text p type name r hr hok
        | job d => cases hsup
        | other kind => cases hsup
    · apply repo.register_of_refused host text b (.unsupportedBody b.kind engineName) _
        (by simp [ofError])
      · simp only [faults, hb, hs, hsup]
        rfl
      · simp only [ha, hsup]
        rfl

theorem register_leaves (repo : Repository) (host : Host) (text : String) (b : Body)
    (h : of (repo.register host text b).1 ≠ .registered) :
    (repo.register host text b).2 = { repo with engine :=
      { repo.engine with journal := (repo.register host text b).2.engine.journal } } := by
  obtain ⟨_, _, hr⟩ | ⟨_, _, _, _, _, hr⟩ := repo.register_cases host text b
  · rw [hr]
  · rw [hr] at h
    exact absurd rfl h

end Repository

end CronTasks.Runner
