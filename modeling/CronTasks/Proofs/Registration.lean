import CronTasks.Proofs.Runner.Registration
import CronTasks.Proofs.Trigger.Registration
import CronTasks.Proofs.Window

namespace CronTasks

open Calendar Cron Verdict

/-- A registration is refused for its first fault, and succeeds if it has none. With the trigger
engine a refusal changes nothing, and a schedule in universal time has no fire time left if none of
its instants lies ahead. With the runner engine a refusal changes nothing but the journal, to which
the call of a constructor is added where no argument or name is at fault. -/
theorem registration_decided_by_first_fault (host : Host) (text : String) (b : Body) :
    (∀ repo : Trigger.Repository,
      let answer := repo.register host text b
      of answer.1 = firstOf (repo.faults host text b) ∧
        (of answer.1 ≠ .registered → answer.2 = repo) ∧
        answer.2.engine.journal = repo.engine.journal ∧
        ∀ e, Expression.parse text = .ok e → repo.zone = none → ∀ now, host.now = .ok now →
          (e.search? now repo.zone = none ↔ ∀ t ∈ e.instants, t ≤ now)) ∧
      ∀ repo : Runner.Repository,
        let answer := repo.register host text b
        of answer.1 = firstOf (repo.faults host text b) ∧
          (of answer.1 ≠ .registered → answer.2 =
            { repo with engine := { repo.engine with journal := answer.2.engine.journal } }) ∧
          answer.2.engine.journal = repo.engine.journal ++ repo.construction b (of answer.1) := by
  refine ⟨fun repo => ?_, fun repo => ?_⟩
  · obtain ⟨hjournal, hleaves⟩ := repo.register_leaves host text b
    refine ⟨repo.verdict_register host text b, hleaves, hjournal, fun e he hz now hn => ?_⟩
    obtain ⟨hlow, -, rfl⟩ := (host.now_eq_ok_iff now).mp hn
    rw [hz]
    exact e.search?_eq_none_iff (ordered_of_parse text e he) host.clock
      (yearZero_le_of_nonneg hlow)
  · obtain ⟨hverdict, hjournal⟩ := repo.verdict_register host text b
    exact ⟨hverdict, repo.register_leaves host text b, hjournal⟩

/-- Where a constructor panics, in the last second, and before 1970, a registration ends in a panic,
whatever its other faults promise. -/
theorem registrations_that_panic :
    let promised (fs : List (Bool × Verdict)) := firstOf (fs.filter (·.2 ≠ .panicked))
    let explosive : Runner.Repository := .attach (.new none) (some [("app.Explosive",
      ⟨"app.Explosive", fun _ => .done (.panic (.text "ctor")), [("run", fun _ => .success)]⟩)])
    let reports : Trigger.Repository := .attach (.fresh "m" .single) [("app.Reports",
      ⟨"app.Reports", fun _ => .done .success, [("daily", fun _ => .success)]⟩)] none
    let work : Body := .runnable ⟨"work", none, .success⟩
    let run : Body := .method "app.Explosive" "run"
    let daily : Body := .method "app.Reports" "daily"
    (promised (explosive.faults ⟨1893456000000, true⟩ "*/5 * * * *" run) = .registered ∧
        of (explosive.register ⟨1893456000000, true⟩ "*/5 * * * *" run).1 = .panicked) ∧
      (promised (explosive.faults ⟨8210266876799999, true⟩ "*/5 * * * *" work) = .registered ∧
        of (explosive.register ⟨8210266876799999, true⟩ "*/5 * * * *" work).1 = .panicked) ∧
      (promised (reports.faults ⟨8210266876799999, true⟩ "* * * * * *" daily) = .internal ∧
        of (reports.register ⟨8210266876799999, true⟩ "* * * * * *" daily).1 = .panicked) ∧
      promised (reports.faults ⟨-1, true⟩ "* * * * * *" daily) = .registered ∧
        of (reports.register ⟨-1, true⟩ "* * * * * *" daily).1 = .panicked := by
  intro promised explosive reports work run daily
  refine ⟨⟨?_, ?_⟩, ⟨?_, ?_⟩, ⟨?_, ?_⟩, ?_, ?_⟩ <;> decide +kernel

end CronTasks
