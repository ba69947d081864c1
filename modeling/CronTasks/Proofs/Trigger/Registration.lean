import CronTasks.Proofs.Trigger.Ledger
import CronTasks.Proofs.Trigger.Factory
import CronTasks.Proofs.Verdict

namespace CronTasks

open Calendar Cron Verdict

def Body.job? : Body → Option JobDetail
  | .method type name => some (.ofMethod type name)
  | .job detail => some detail
  | _ => none

namespace Trigger.Repository

/-- The faults of the registration of a job, in the order in which they are looked for. -/
def jobFaults (repo : Repository) (host : Host) (text : String) (d : JobDetail) :
    List (Bool × Verdict) :=
  [(d.type ≠ .method || Text.blank d.key.group || Text.blank d.key.name, .invalidArgument),
    (!repo.registry.hasType d.key.group || !repo.registry.hasMethod d.key.group d.key.name,
      .illegalState),
    (!(Expression.parse text).isOk, .invalidExpression),
    (!host.now.isOk, .panicked),
    (repo.engine.store.jobs.contains d.key || repo.engine.store.triggers.contains d.key.triggerKey,
      .internal),
    (!host.clock.hasNextSecond, .panicked),
    ((Expression.parse text).toOption.any fun e => (e.search? host.clock repo.zone).isNone,
      .internal)]

def faults (repo : Repository) (host : Host) (text : String) (b : Body) : List (Bool × Verdict) :=
  (Text.blank text, .missingArgument) ::
    match b.job? with
    | none => [(true, .unsupportedBody)]
    | some d => repo.jobFaults host text d

/-- The clock is read first, and the store looks for what is taken before it looks for a fire
time. -/
theorem verdict_schedule (repo : Repository) (host : Host) (d : JobDetail) (e : Expression) :
    of (Raised.mapError (normalized <| .trigger ·)
        ((repo.engine.schedule host d (repo.cronTrigger d.key e)).1.map fun _ => d.key.id)) =
      firstOf [(!host.now.isOk, .panicked),
        (repo.engine.store.jobs.contains d.key ||
          repo.engine.store.triggers.contains d.key.triggerKey, .internal),
        (!host.clock.hasNextSecond, .panicked),
        ((e.search? host.clock repo.zone).isNone, .internal)] := by
  simp only [Engine.schedule, Engine.update]
  cases hn : host.now with
  | error p => rfl
  | ok now =>
    obtain ⟨-, -, rfl⟩ := (host.now_eq_ok_iff now).mp hn
    simp only [Store.schedule, cronTrigger]
    by_cases hj : repo.engine.store.jobs.contains d.key = true
    · simp only [hj, ↓reduceIte]
      rfl
    · by_cases ht : repo.engine.store.triggers.contains d.key.triggerKey = true
      · simp only [hj, ht]
        rfl
      · simp only [hj, ht, Store.firstFire, Timing.first?, Timing.next?, e.next?_eq]
        by_cases hl : host.clock.hasNextSecond = true
        · simp only [hl, ↓reduceIte]
          cases e.search? host.clock repo.zone with
          | none => rfl
          | some t => rfl
        · simp only [hl]
          rfl

theorem register_of_job (repo : Repository) (host : Host) (text : String) (b : Body) (d : JobDetail)
    (hb : Text.blank text = false) (hd : b.job? = some d) :
    of (repo.register host text b).1 = firstOf (repo.jobFaults host text d) := by
  have ha : repo.accept text b = do
      d.type.check
      checkKey repo.registry d.key
      return d := by
    have hdetail : detail b = .ok d := by cases b <;> cases hd <;> rfl
    simp only [accept, requireText, hb, hdetail]
    rfl
  rw [register, ha, jobFaults]
  cases d.type with
  | other name => rfl
  | method =>
    obtain ⟨hblank, message, hc⟩ | ⟨hg, hn, hm, message, hc⟩ | ⟨hr, hc⟩ :=
      checkKey_cases repo.registry d.key
    · simp only [hc]
      obtain hg | hn := hblank
      · simp only [hg]
        rfl
      · simp only [hn, Bool.or_true]
        rfl
    · simp only [hc, hg, hn, hm, Bool.not_false, Bool.or_true]
      rfl
    · simp only [hc, hr.type_shows, hr.name_shows, hr.hasMethod,
        repo.registry.hasType_of_hasMethod _ _ hr.hasMethod]
      unfold parse
      cases he : Expression.parse text with
      | error err => rfl
      | ok e => exact repo.verdict_schedule host d e

theorem verdict_register (repo : Repository) (host : Host) (text : String) (b : Body) :
    of (repo.register host text b).1 = firstOf (repo.faults host text b) := by
  unfold faults
  cases hb : Text.blank text with
  | true =>
    simp only [register, accept, requireText, hb]
    rfl
  | false =>
    cases hj : b.job? with
    | some d => exact repo.register_of_job host text b d hb hj
    | none =>
      have hdetail : detail b = .error (.unsupportedBody b.kind engineName) := by
        cases b <;> first | rfl | cases hj
      simp only [register, accept, requireText, hb, hdetail]
      rfl

theorem register_leaves (repo : Repository) (host : Host) (text : String) (b : Body) :
    (repo.register host text b).2.engine.journal = repo.engine.journal ∧
      (of (repo.register host text b).1 ≠ .registered →
        (repo.register host text b).2 = repo) := by
  obtain ⟨err, hr⟩ | ⟨_, _, _, _, _, _, _, _, _, hr⟩ := repo.register_cases host text b
  · rw [hr]
    exact ⟨rfl, fun _ => rfl⟩
  · rw [hr]
    exact ⟨rfl, fun h => absurd rfl h⟩

end Trigger.Repository

end CronTasks
