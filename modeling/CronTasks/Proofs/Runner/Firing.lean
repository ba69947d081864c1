import CronTasks.Proofs.Firing
import CronTasks.Proofs.Methods
import CronTasks.Proofs.Runner.Ledger

namespace CronTasks.Runner

open Calendar

namespace Engine

/-- What a listener adds to the journal: the bridge all that the cron listeners are told. -/
def heard (said : List Event) (note : String → Event) : LaunchListener → List Event
  | .bridge => said
  | .idle => []
  | .watcher _ name _ _ _ => [note name]

theorem tellAll_eq (e : Engine) (relay : Act (Audience × Journal)) (note : String → Event)
    (own : LaunchListener → Outcome) (said : List Event)
    (hr : ∀ journal, relay (e.audience, journal) = (.success, e.audience, journal ++ said))
    (hs : Journal.course said = said) (hn : ∀ name, (note name).inCourse = false) :
    ∃ added, tellAll relay note own e = (.success, { e with journal := e.journal ++ added }) ∧
      (e.listeners.count .bridge = 1 → Journal.course added = said) := by
  apply Journal.exists_added (tell relay note own) (fun journal => { e with journal })
    (heard said note) .bridge
  · intro l journal
    cases l with
    | bridge => simp only [tell, hr, heard]
    | idle => simp only [tell, heard, List.append_nil]
    | watcher => rfl
  · exact hs
  · intro l hl
    cases l with
    | bridge => exact absurd rfl hl
    | idle => rfl
    | watcher _ name _ _ _ => simp [heard, Journal.course, hn name]

theorem run_eq (l : Launch) (e : Engine) (h : e.audience.Steady) : ∃ told later : Journal,
    run l e = (.success, { e with journal := (l.work.run (e.journal ++ told)).2 ++ later }) ∧
      (e.listeners.count .bridge = 1 →
        Journal.course told = hooked e.audience.listening.toList (firing l) .before ∧
          Journal.course later = completed e.audience.listening.toList (firing l)
            ((l.work.run (e.journal ++ told)).1.ending "task" Failure.message)) := by
  obtain ⟨told, htold, ht⟩ := e.tellAll_eq _ (.launch · .launching (report l))
    LaunchListener.launching _ (h.dispatch .before (firing l)) (Journal.course_hooked _ _ _)
    fun _ => rfl
  rcases hx : l.work.run (e.journal ++ told) with ⟨outcome, journal⟩
  have hended (ending : Ending) : ∃ later,
      notifyEnded l ending { e with journal } = (.success, { e with journal := journal ++ later }) ∧
        (e.listeners.count .bridge = 1 → Journal.course later =
          completed e.audience.listening.toList (firing l) ending) :=
    tellAll_eq _ _ _ _ _ (h.dispatchCompleted ending (firing l)) (Journal.course_completed _ _ _)
      fun _ => rfl
  obtain ⟨later, hlater, hl⟩ := hended (outcome.ending "task" Failure.message)
  refine ⟨told, later, ?_, fun hcount => ⟨ht hcount, ?_⟩⟩
  · -- the notice before goes through, so that the rest is reached
    rw [hx, ← hlater, run, notifyLaunching, Act.andThen_of_success _ htold]
    simp only [hx, Outcome.ending]
    cases outcome.caught "task" <;> rfl
  · rw [hx, hl hcount]

end Engine

namespace Repository

inductive Step
  | call (c : Call)
  | addListener (name : String) (l : CronListener) (hl : l.Plain)
  | removeListener (name : String)
  | addLaunchListener (l : LaunchListener)
  | removeLaunchListener (l : LaunchListener)

def step (repo : Repository) : Step → Repository
  | .call c => (repo.call c).2
  | .addListener name l _ => repo.addListener name l
  | .removeListener name => (repo.removeListener name).2
  | .addLaunchListener l => { repo with engine := repo.engine.addListener l }
  | .removeLaunchListener l => { repo with engine := (repo.engine.removeListener l).2 }

def steps (repo : Repository) (ss : List Step) : Repository := ss.foldl step repo

end Repository

end CronTasks.Runner
