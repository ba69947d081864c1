import CronTasks.Proofs.Runner.Ledger
import CronTasks.Proofs.Trigger.Ledger
import CronTasks.Repository

namespace CronTasks

open Calendar

theorem Trigger.Repository.start_cases (repo : Trigger.Repository) (host : Host) :
    (repo.isStarted = true ∧ repo.start host = (.ok (), repo)) ∨
      (repo.isStarted = false ∧ ∃ err, repo.start host = (.error (.error err), repo)) ∨
      (repo.isStarted = false ∧ ∃ p store, repo.start host =
        (.error (.panic p), { repo with engine := { repo.engine with running := true, store } })) ∨
      (repo.isStarted = false ∧ ∃ timer store, repo.start host = (.ok (), { repo with
        lifecycle := .running, engine := { repo.engine with running := true, timer, store } })) := by
  obtain ⟨e, _ | _, zone⟩ := repo
  · simp only [start, Lifecycle.start, Lifecycle.moveTo, reduceCtorEq, ↓reduceIte]
    obtain hs | ⟨hr, hs⟩ | ⟨p, store, hs⟩ | ⟨store, hs⟩ := e.start_answers host
    · rw [hs]
      exact .inr (.inl ⟨rfl, _, rfl⟩)
    · rw [hs]
      exact .inr (.inr (.inr ⟨rfl, e.timer, e.store, by rw [← hr]; rfl⟩))
    · rw [hs]
      exact .inr (.inr (.inl ⟨rfl, p, store, rfl⟩))
    · rw [hs]
      exact .inr (.inr (.inr ⟨rfl, _, store, rfl⟩))
  · exact .inl ⟨rfl, rfl⟩

theorem Trigger.Repository.stop_cases (repo : Trigger.Repository) :
    (repo.isStarted = false ∧ repo.stop = (.ok (), repo)) ∨
      (repo.isStarted = true ∧
        repo.stop = (.ok (), { repo with lifecycle := .stopped, engine := repo.engine.standby })) := by
  obtain ⟨e, _ | _, zone⟩ := repo
  · exact .inl ⟨rfl, rfl⟩
  · exact .inr ⟨rfl, rfl⟩

theorem Trigger.Engine.tick_cases (e : Trigger.Engine) (host : Host) :
    (e.timer = false ∧ e.tick host = ([], e)) ∨
      (e.timer = true ∧ ∃ fired timer store, e.tick host = (fired, { e with timer, store })) := by
  unfold tick
  cases ht : e.timer with
  | false => exact .inl ⟨rfl, rfl⟩
  | true =>
    refine .inr ⟨rfl, ?_⟩
    cases host.now with
    | error p => exact ⟨[], false, e.store, rfl⟩
    | ok now => exact ⟨_, _, _, rfl⟩

namespace Runner

theorem Engine.tick_cases (e : Engine) (host : Host) :
    (e.timer = false ∧ e.tick host = ([], e)) ∨
      (e.timer = true ∧ ∃ fired timer entries, e.tick host = (fired, { e with timer, entries })) := by
  unfold tick
  cases ht : e.timer with
  | false => exact .inl ⟨rfl, rfl⟩
  | true =>
    refine .inr ⟨rfl, ?_⟩
    cases host.now with
    | error p => exact ⟨[], false, e.entries, rfl⟩
    | ok now =>
      obtain ⟨-, entries, -, ha⟩ | ⟨-, ha⟩ := e.acquire_eq now
      · exact ⟨[], false, entries, by simp [ha]⟩
      · exact ⟨_, e.timer, _, by simp only [ha, ht]; rfl⟩

theorem Repository.start_cases (repo : Repository) (host : Host) :
    (repo.isStarted = true ∧ repo.start host = (.ok (), repo)) ∨
      (repo.isStarted = false ∧ ∃ err, repo.start host = (.error (.error err), repo)) ∨
      (repo.isStarted = false ∧ ∃ p timer entries, (timer = true → repo.engine.timer = true) ∧
        repo.start host = (.error (.panic p),
          { repo with engine := { repo.engine with running := true, timer, entries } })) ∨
      (repo.isStarted = false ∧ ∃ timer entries, repo.start host = (.ok (), { repo with
        lifecycle := .running
        engine := { repo.engine with running := true, timer, entries } })) := by
  obtain ⟨e, _ | _, registry⟩ := repo
  · simp only [start, startEngine, Lifecycle.start, Lifecycle.moveTo, reduceCtorEq, ↓reduceIte]
    obtain ⟨err, hs, hr⟩ | ⟨-, p, timer, entries, -, ht, hs⟩ | ⟨-, -, now, -, hs⟩ :=
      e.start_cases host
    · rw [hs]
      cases err with
      | alreadyStarted =>
        -- an engine that runs already is what was asked for, so that only the guard moves
        exact .inr (.inr (.inr ⟨rfl, e.timer, e.entries, by rw [← hr rfl]⟩))
      | _ => exact .inr (.inl ⟨rfl, _, rfl⟩)
    · rw [hs]
      exact .inr (.inr (.inl ⟨rfl, p, timer, entries, ht, rfl⟩))
    · rw [hs]
      exact .inr (.inr (.inr ⟨rfl, true, _, rfl⟩))
  · exact .inl ⟨rfl, rfl⟩

theorem Engine.stop_halts (e : Engine) : ∃ timer, e.stop.2 = { e with running := false, timer } ∧
    ((e.timer = true → e.running = true) → timer = false) := by
  unfold stop
  cases hr : e.running with
  | true => exact ⟨false, rfl, fun _ => rfl⟩
  | false =>
    have he : e = { e with running := false } := by rw [← hr]
    exact ⟨e.timer, he, fun h => by simpa using h⟩

theorem Repository.stop_cases (repo : Repository) :
    (repo.isStarted = false ∧ repo.stop = (.ok (), repo)) ∨
      (repo.isStarted = true ∧
        repo.stop = (.ok (), { repo with lifecycle := .stopped, engine := repo.engine.stop.2 })) := by
  obtain ⟨e, _ | _, registry⟩ := repo
  · exact .inl ⟨rfl, rfl⟩
  · refine .inr ⟨rfl, ?_⟩
    simp only [stop, stopEngine, Lifecycle.stop, Lifecycle.moveTo, reduceCtorEq, ↓reduceIte,
      Engine.stop]
    cases e.running <;> rfl

end Runner

/-- What the lifecycle of a repository comes to: its guard, its engine and the engine's timer. -/
structure Condition where
  started : Bool
  runs : Bool
  ticks : Bool
  deriving DecidableEq

def Condition.Sound (c : Condition) : Prop := c.ticks = true → c.runs = true

inductive Reply
  | done
  | refused
  | panicked
  deriving DecidableEq

def Reply.of {ε α : Type} : Except (Raised ε) α → Reply
  | .ok _ => done
  | .error (.error _) => refused
  | .error (.panic _) => panicked

namespace Repository

def condition : Repository → Condition
  | trigger repo => ⟨repo.isStarted, repo.engine.running, repo.engine.timer⟩
  | runner repo => ⟨repo.isStarted, repo.engine.running, repo.engine.timer⟩

def engineRuns (repo : Repository) : Bool := repo.condition.runs

def tasks : Repository → Trigger.Store ⊕ Table String Runner.Entry
  | trigger repo => .inl repo.engine.store
  | runner repo => .inr repo.engine.entries

def startEngine (repo : Repository) (host : Host) : Reply × Repository :=
  match repo with
  | trigger repo => (.of (repo.engine.start host).1,
      trigger { repo with engine := (repo.engine.start host).2 })
  | runner repo => (.of (repo.engine.start host).1,
      runner { repo with engine := (repo.engine.start host).2 })

def stopEngine : Repository → Reply × Repository
  | trigger repo => (.done, trigger { repo with engine := repo.engine.standby })
  | runner repo => (.of (repo.engine.stop.1.mapError .error),
      runner { repo with engine := repo.engine.stop.2 })

def tick (repo : Repository) (host : Host) : List Firing × Repository :=
  match repo with
  | trigger repo => ((repo.engine.tick host).1.map Trigger.Engine.firing,
      trigger { repo with engine := (repo.engine.tick host).2 })
  | runner repo => ((repo.engine.tick host).1.map Runner.Engine.firing,
      runner { repo with engine := (repo.engine.tick host).2 })

/-- A call on a repository or on its engine, or a tick of the engine's timer. -/
inductive Step
  | start (host : Host)
  | stop
  | restart (host : Host)
  | startEngine (host : Host)
  | stopEngine
  | register (host : Host) (text : String) (b : Body)
  | update (host : Host) (id text : String)
  | remove (id : String)
  | tick (host : Host)

namespace Step

def starts : Step → Bool
  | start _ | restart _ | startEngine _ => true
  | _ => false

def passesGuard : Step → Bool
  | startEngine _ | stopEngine => true
  | _ => false

end Step

def step (repo : Repository) : Step → Reply × Repository
  | .start host => (.of (repo.start host).1, (repo.start host).2)
  | .stop => (.of (repo.stop.1.mapError .error), repo.stop.2)
  | .restart host => (.of (repo.restart host).1, (repo.restart host).2)
  | .startEngine host => repo.startEngine host
  | .stopEngine => repo.stopEngine
  | .register host text b => (.of (repo.register host text b).1, (repo.register host text b).2)
  | .update host id text => (.of (repo.update host id text).1, (repo.update host id text).2)
  | .remove id => (.of ((repo.remove id).1.mapError .error), (repo.remove id).2)
  | .tick host => (.done, (repo.tick host).2)

def steps (repo : Repository) (ss : List Step) : Repository :=
  ss.foldl (fun repo s => (repo.step s).2) repo

def fires (repo : Repository) : Step → List Firing
  | .tick host => (repo.tick host).1
  | _ => []

/-- What is fired by steps one after the other. -/
def fired (repo : Repository) : List Step → List Firing
  | [] => []
  | s :: ss => repo.fires s ++ (repo.step s).2.fired ss

/-- That something holds of every step of a run, where it is taken. -/
def Along (p : Repository → Step → Prop) (repo : Repository) : List Step → Prop
  | [] => True
  | s :: ss => p repo s ∧ (repo.step s).2.Along p ss

/-- A repository that has just been given its engine. -/
inductive Fresh : Repository → Prop
  | trigger (name : String) (threads : Trigger.Threads) (registry : Registry) (zone : Option Zone) :
      Fresh (.trigger (.attach (.fresh name threads) registry zone))
  | runner (zone : Option Zone) (ids : Nat → String) (registry : Option Registry) :
      Fresh (.runner (.attach (.new zone ids) registry))

variable {repo : Repository}

theorem start_cases (repo : Repository) (host : Host) :
    (repo.isStarted = true ∧ repo.start host = (.ok (), repo)) ∨
      (repo.isStarted = false ∧ ∃ err, repo.start host = (.error (.error err), repo)) ∨
      (repo.isStarted = false ∧ ∃ p ticks repo', repo.start host = (.error (.panic p), repo') ∧
        repo'.condition = { repo.condition with runs := true, ticks } ∧
          (ticks = true → repo.condition.ticks = true)) ∨
      (repo.isStarted = false ∧ ∃ ticks repo', repo.start host = (.ok (), repo') ∧
        repo'.condition = ⟨true, true, ticks⟩) := by
  cases repo with
  | trigger repo =>
    obtain ⟨h, hs⟩ | ⟨h, err, hs⟩ | ⟨h, p, store, hs⟩ | ⟨h, timer, store, hs⟩ :=
      repo.start_cases host
    · exact .inl ⟨h, congrArg (leaving trigger) hs⟩
    · exact .inr (.inl ⟨h, err, congrArg (leaving trigger) hs⟩)
    · exact .inr (.inr (.inl ⟨h, p, repo.engine.timer, _, congrArg (leaving trigger) hs, rfl, id⟩))
    · exact .inr (.inr (.inr ⟨h, timer, _, congrArg (leaving trigger) hs, rfl⟩))
  | runner repo =>
    obtain ⟨h, hs⟩ | ⟨h, err, hs⟩ | ⟨h, p, timer, entries, ht, hs⟩ | ⟨h, timer, entries, hs⟩ :=
      repo.start_cases host
    · exact .inl ⟨h, congrArg (leaving runner) hs⟩
    · exact .inr (.inl ⟨h, err, congrArg (leaving runner) hs⟩)
    · exact .inr (.inr (.inl ⟨h, p, timer, _, congrArg (leaving runner) hs, rfl, ht⟩))
    · exact .inr (.inr (.inr ⟨h, timer, _, congrArg (leaving runner) hs, rfl⟩))

theorem stop_cases (repo : Repository) :
    (repo.isStarted = false ∧ repo.stop = (.ok (), repo)) ∨
      (repo.isStarted = true ∧ ∃ repo', repo.stop = (.ok (), repo') ∧ repo'.tasks = repo.tasks ∧
        ∃ ticks, repo'.condition = ⟨false, false, ticks⟩ ∧
          (repo.condition.Sound → ticks = false)) := by
  cases repo with
  | trigger repo =>
    obtain ⟨h, hs⟩ | ⟨h, hs⟩ := repo.stop_cases
    · exact .inl ⟨h, congrArg (leaving trigger) hs⟩
    · exact .inr ⟨h, _, congrArg (leaving trigger) hs, rfl, false, rfl, fun _ => rfl⟩
  | runner repo =>
    obtain ⟨h, hs⟩ | ⟨h, hs⟩ := repo.stop_cases
    · exact .inl ⟨h, congrArg (leaving runner) hs⟩
    · obtain ⟨ticks, he, ht⟩ := repo.engine.stop_halts
      refine .inr ⟨h, _, congrArg (leaving runner) hs, ?_, ticks, ?_, ht⟩
      · simp only [tasks, he]
      · simp only [condition, he]
        rfl

theorem restart_eq (repo : Repository) (host : Host) :
    repo.restart host = repo.stop.2.start host := by
  cases repo with
  | trigger repo =>
    obtain ⟨-, hs⟩ | ⟨-, hs⟩ := repo.stop_cases
    · simp only [restart, stop, Trigger.Repository.restart, hs, leaving, start]
    · simp only [restart, stop, Trigger.Repository.restart, hs, leaving, start]
  | runner repo =>
    obtain ⟨-, hs⟩ | ⟨-, hs⟩ := repo.stop_cases
    · simp only [restart, stop, Runner.Repository.restart, hs, leaving, start]
    · simp only [restart, stop, Runner.Repository.restart, hs, leaving, start]

theorem startEngine_cases (repo : Repository) (host : Host) :
    (∃ reply, reply ≠ .panicked ∧ repo.startEngine host = (reply, repo)) ∨
      (∃ ticks repo', repo.startEngine host = (.panicked, repo') ∧
        repo'.condition = { repo.condition with runs := true, ticks } ∧
          (ticks = true → repo.condition.ticks = true)) ∨
      ∃ repo', repo.startEngine host = (.done, repo') ∧
        repo'.condition = { repo.condition with runs := true, ticks := true } := by
  cases repo with
  | trigger repo =>
    simp only [startEngine]
    obtain hs | ⟨-, hs⟩ | ⟨p, store, hs⟩ | ⟨store, hs⟩ := repo.engine.start_answers host
    · rw [hs]
      exact .inl ⟨.refused, nofun, rfl⟩
    · rw [hs]
      exact .inl ⟨.done, nofun, rfl⟩
    · rw [hs]
      exact .inr (.inl ⟨repo.engine.timer, _, rfl, rfl, id⟩)
    · rw [hs]
      exact .inr (.inr ⟨_, rfl, rfl⟩)
  | runner repo =>
    simp only [startEngine]
    obtain ⟨err, hs, -⟩ | ⟨-, p, timer, entries, -, ht, hs⟩ | ⟨-, -, now, -, hs⟩ :=
      repo.engine.start_cases host
    · rw [hs]
      exact .inl ⟨.refused, nofun, rfl⟩
    · rw [hs]
      exact .inr (.inl ⟨timer, _, rfl, rfl, ht⟩)
    · rw [hs]
      exact .inr (.inr ⟨_, rfl, rfl⟩)

theorem stopEngine_condition (repo : Repository) : ∃ ticks,
    repo.stopEngine.2.condition = { repo.condition with runs := false, ticks } ∧
      (repo.condition.Sound → ticks = false) := by
  cases repo with
  | trigger repo => exact ⟨false, rfl, fun _ => rfl⟩
  | runner repo =>
    obtain ⟨ticks, he, ht⟩ := repo.engine.stop_halts
    refine ⟨ticks, ?_, ht⟩
    simp only [stopEngine, condition, he]
    rfl

theorem register_condition (repo : Repository) (host : Host) (text : String) (b : Body) :
    (repo.register host text b).2.condition = repo.condition := by
  cases repo with
  | trigger repo =>
    obtain ⟨_, hr⟩ | ⟨_, _, _, _, _, _, _, _, _, hr⟩ := repo.register_cases host text b
    · exact congrArg (condition <| trigger ·.2) hr
    · exact congrArg (condition <| trigger ·.2) hr
  | runner repo =>
    obtain ⟨_, _, hr⟩ | ⟨_, _, _, _, _, hr⟩ := repo.register_cases host text b
    · exact congrArg (condition <| runner ·.2) hr
    · exact congrArg (condition <| runner ·.2) hr

theorem update_condition (repo : Repository) (host : Host) (id text : String) :
    (repo.update host id text).2.condition = repo.condition := by
  cases repo with
  | trigger repo =>
    obtain ⟨_, hr⟩ | ⟨_, _, _, _, _, _, _, _, _, _, _, _, hr⟩ := repo.update_cases host id text
    · exact congrArg (condition <| trigger ·.2) hr
    · exact congrArg (condition <| trigger ·.2) hr
  | runner repo =>
    obtain ⟨_, hr⟩ | ⟨_, _, _, _, _, _, hr⟩ := repo.update_cases host id text
    · exact congrArg (condition <| runner ·.2) hr
    · exact congrArg (condition <| runner ·.2) hr

theorem remove_condition (repo : Repository) (id : String) :
    (repo.remove id).2.condition = repo.condition := by
  cases repo with
  | trigger repo =>
    obtain ⟨_, hr⟩ | ⟨_, _, _, hr⟩ := repo.remove_cases id
    · exact congrArg (condition <| trigger ·.2) hr
    · simp only [remove, leaving, hr]
      rfl
  | runner repo =>
    have hr := repo.remove_eq id
    split at hr
    · exact congrArg (condition <| runner ·.2) hr
    · exact congrArg (condition <| runner ·.2) hr

/-- Without a timer a tick does nothing; otherwise it may break the timer off. -/
theorem tick_cases (repo : Repository) (host : Host) :
    (repo.condition.ticks = false ∧ repo.tick host = ([], repo)) ∨
      (repo.condition.ticks = true ∧
        ∃ ticks, (repo.tick host).2.condition = { repo.condition with ticks }) := by
  cases repo with
  | trigger repo =>
    obtain ⟨ht, hs⟩ | ⟨ht, fired, timer, store, hs⟩ := repo.engine.tick_cases host
    · exact .inl ⟨ht, by simp only [tick, hs, List.map_nil]⟩
    · exact .inr ⟨ht, timer, by simp only [tick, hs]; rfl⟩
  | runner repo =>
    obtain ⟨ht, hs⟩ | ⟨ht, fired, timer, entries, hs⟩ := repo.engine.tick_cases host
    · exact .inl ⟨ht, by simp only [tick, hs, List.map_nil]⟩
    · exact .inr ⟨ht, timer, by simp only [tick, hs]; rfl⟩

theorem condition_started (repo : Repository) : repo.condition.started = repo.isStarted := by
  cases repo <;> rfl

theorem start_eq_ok (repo : Repository) (host : Host) (hok : (repo.start host).1 = .ok ()) :
    (repo.start host).2.isStarted = true ∧
      (repo.isStarted = false → (repo.start host).2.engineRuns = true) ∧
      (repo.isStarted = true → (repo.start host).2 = repo) := by
  obtain ⟨h, ha⟩ | ⟨-, err, ha⟩ | ⟨-, p, -, repo', ha, -, -⟩ | ⟨h, ticks, repo', ha, hc⟩ :=
    repo.start_cases host
  · rw [ha]
    exact ⟨h, fun hn => absurd (h.symm.trans hn) nofun, fun _ => rfl⟩
  · exact absurd (hok.symm.trans (congrArg Prod.fst ha)) nofun
  · exact absurd (hok.symm.trans (congrArg Prod.fst ha)) nofun
  · rw [ha, ← repo'.condition_started, engineRuns, hc]
    exact ⟨rfl, fun _ => rfl, fun hn => absurd (h.symm.trans hn) nofun⟩

theorem stop_eq_ok (repo : Repository) : repo.stop.1 = .ok () ∧ repo.stop.2.isStarted = false ∧
    (repo.isStarted = true → repo.stop.2.engineRuns = false) ∧
    (repo.isStarted = false → repo.stop.2 = repo) := by
  obtain ⟨h, ha⟩ | ⟨h, repo', ha, -, ticks, hc, -⟩ := repo.stop_cases
  · rw [ha]
    exact ⟨rfl, h, fun hn => absurd (h.symm.trans hn) nofun, fun _ => rfl⟩
  · rw [ha, ← repo'.condition_started, engineRuns, hc]
    exact ⟨rfl, rfl, fun _ => rfl, fun hn => absurd (h.symm.trans hn) nofun⟩

theorem sound_start (h : repo.condition.Sound) (host : Host) :
    (repo.start host).2.condition.Sound := by
  obtain ⟨-, hs⟩ | ⟨-, err, hs⟩ | ⟨-, p, ticks, repo', hs, hc, -⟩ | ⟨-, ticks, repo', hs, hc⟩ :=
    repo.start_cases host
  · rwa [hs]
  · rwa [hs]
  · rw [hs, hc]
    exact fun _ => rfl
  · rw [hs, hc]
    exact fun _ => rfl

theorem sound_stop (h : repo.condition.Sound) : repo.stop.2.condition.Sound := by
  obtain ⟨-, hs⟩ | ⟨-, repo', hs, -, ticks, hc, ht⟩ := repo.stop_cases
  · rwa [hs]
  · rw [hs, hc, ht h]
    exact nofun

theorem sound_step (h : repo.condition.Sound) (s : Step) : (repo.step s).2.condition.Sound := by
  cases s with
  | start host => exact sound_start h host
  | stop => exact sound_stop h
  | restart host =>
    simp only [step, restart_eq]
    exact sound_start (sound_stop h) host
  | startEngine host =>
    obtain ⟨reply, -, hs⟩ | ⟨ticks, repo', hs, hc, -⟩ | ⟨repo', hs, hc⟩ := repo.startEngine_cases host
    · simpa only [step, hs] using h
    · simp only [step, hs, hc]
      exact fun _ => rfl
    · simp only [step, hs, hc]
      exact fun _ => rfl
  | stopEngine =>
    obtain ⟨ticks, hc, ht⟩ := repo.stopEngine_condition
    simp only [step, hc, ht h]
    exact nofun
  | register host text b => rwa [step, register_condition]
  | update host id text => rwa [step, update_condition]
  | remove id => rwa [step, remove_condition]
  | tick host =>
    obtain ⟨-, hs⟩ | ⟨ht, ticks, hc⟩ := repo.tick_cases host
    · simpa only [step, hs] using h
    · simp only [step, hc]
      exact fun _ => h ht

theorem sound_steps (h : repo.condition.Sound) (ss : List Step) :
    (repo.steps ss).condition.Sound := by
  induction ss generalizing repo with
  | nil => exact h
  | cons s ss ih => exact ih (sound_step h s)

theorem Fresh.sound (h : repo.Fresh) : repo.condition.Sound := by
  cases h <;> exact nofun

theorem quiet_start (h : repo.condition.ticks = false) (host : Host)
    (hs : Reply.of (repo.start host).1 ≠ .done) : (repo.start host).2.condition.ticks = false := by
  obtain ⟨-, ha⟩ | ⟨-, err, ha⟩ | ⟨-, p, ticks, repo', ha, hc, ht⟩ | ⟨-, ticks, repo', ha, -⟩ :=
    repo.start_cases host
  · rwa [ha]
  · rwa [ha]
  · rw [ha, hc]
    exact Bool.eq_false_iff.mpr fun hn => absurd (h.symm.trans (ht hn)) nofun
  · exact absurd (congrArg (Reply.of ·.1) ha) hs

theorem quiet_stop (h : repo.condition.ticks = false) : repo.stop.2.condition.ticks = false := by
  obtain ⟨-, ha⟩ | ⟨-, repo', ha, -, ticks, hc, ht⟩ := repo.stop_cases
  · rwa [ha]
  · rw [ha, hc]
    exact ht fun hn => absurd (h.symm.trans hn) nofun

/-- Where no timer runs, none runs until a start succeeds, and nothing is fired. -/
theorem quiet_step (h : repo.condition.ticks = false) (s : Step)
    (hs : s.starts = true → (repo.step s).1 ≠ .done) :
    repo.fires s = [] ∧ (repo.step s).2.condition.ticks = false := by
  cases s with
  | start host => exact ⟨rfl, quiet_start h host (hs rfl)⟩
  | stop => exact ⟨rfl, quiet_stop h⟩
  | restart host =>
    simp only [step, restart_eq] at hs ⊢
    exact ⟨rfl, quiet_start (quiet_stop h) host (hs rfl)⟩
  | startEngine host =>
    refine ⟨rfl, ?_⟩
    obtain ⟨reply, -, ha⟩ | ⟨ticks, repo', ha, hc, ht⟩ | ⟨repo', ha, -⟩ := repo.startEngine_cases host
    · simpa only [step, ha] using h
    · simp only [step, ha, hc]
      -- a start that panics leaves the timer as it was, or stops it
      exact Bool.eq_false_iff.mpr fun hn => absurd (h.symm.trans (ht hn)) nofun
    · exact absurd (congrArg Prod.fst ha) (hs rfl)
  | stopEngine =>
    obtain ⟨ticks, hc, ht⟩ := repo.stopEngine_condition
    refine ⟨rfl, ?_⟩
    simp only [step, hc]
    exact ht fun hn => absurd (h.symm.trans hn) nofun
  | register host text b => exact ⟨rfl, by rwa [step, register_condition]⟩
  | update host id text => exact ⟨rfl, by rwa [step, update_condition]⟩
  | remove id => exact ⟨rfl, by rwa [step, remove_condition]⟩
  | tick host =>
    obtain ⟨-, ha⟩ | ⟨ht, -⟩ := repo.tick_cases host
    · exact ⟨congrArg Prod.fst ha, by simpa only [step, ha] using h⟩
    · exact absurd (h.symm.trans ht) nofun

theorem fired_of_quiet (h : repo.condition.ticks = false) (ss : List Step)
    (hs : repo.Along (fun r s => s.starts = true → (r.step s).1 ≠ .done) ss) :
    repo.fired ss = [] := by
  induction ss generalizing repo with
  | nil => rfl
  | cons s ss ih =>
    obtain ⟨hf, hq⟩ := quiet_step h s hs.1
    rw [fired, hf, ih hq hs.2, List.nil_append]

/-- A start that is refused leaves the tasks as they are, with their fire times. -/
theorem tasks_of_refused (repo : Repository) (s : Step) (hs : s.starts = true)
    (hr : (repo.step s).1 = .refused) : (repo.step s).2.tasks = repo.tasks := by
  have hstart (repo : Repository) (host : Host) (hr : Reply.of (repo.start host).1 = .refused) :
      (repo.start host).2 = repo := by
    obtain ⟨-, ha⟩ | ⟨-, err, ha⟩ | ⟨-, p, -, repo', ha, -, -⟩ | ⟨-, ticks, repo', ha, -⟩ :=
      repo.start_cases host
    · rw [ha]
    · rw [ha]
    · exact absurd (hr.symm.trans (congrArg (Reply.of ·.1) ha)) nofun
    · exact absurd (hr.symm.trans (congrArg (Reply.of ·.1) ha)) nofun
  cases s with
  | start host => exact congrArg tasks (hstart repo host hr)
  | restart host =>
    simp only [step, restart_eq] at hr ⊢
    rw [hstart _ host hr]
    obtain ⟨-, ha⟩ | ⟨-, repo', ha, ht, -⟩ := repo.stop_cases
    · rw [ha]
    · rw [ha, ht]
  | startEngine host =>
    obtain ⟨reply, -, ha⟩ | ⟨-, repo', ha, -, -⟩ | ⟨repo', ha, -⟩ := repo.startEngine_cases host
    · simp only [step, ha]
    · exact absurd (hr.symm.trans (congrArg Prod.fst ha)) nofun
    · exact absurd (hr.symm.trans (congrArg Prod.fst ha)) nofun
  | _ => cases hs

def InStep (repo : Repository) : Prop := repo.condition.started = repo.condition.runs

theorem inStep_start (h : repo.InStep) (host : Host)
    (hs : Reply.of (repo.start host).1 ≠ .panicked) : (repo.start host).2.InStep := by
  obtain ⟨-, ha⟩ | ⟨-, err, ha⟩ | ⟨-, p, -, repo', ha, -, -⟩ | ⟨-, ticks, repo', ha, hc⟩ :=
    repo.start_cases host
  · rwa [ha]
  · rwa [ha]
  · exact absurd (congrArg (Reply.of ·.1) ha) hs
  · rw [ha, InStep, hc]

theorem inStep_stop (h : repo.InStep) : repo.stop.2.InStep := by
  obtain ⟨-, ha⟩ | ⟨-, repo', ha, -, ticks, hc, -⟩ := repo.stop_cases
  · rwa [ha]
  · rw [ha, InStep, hc]

/-- Guard and engine part only where the guard is passed, or where a start panics. -/
theorem inStep_step (h : repo.InStep) (s : Step)
    (hs : s.passesGuard = false ∧ (repo.step s).1 ≠ .panicked) : (repo.step s).2.InStep := by
  cases s with
  | start host => exact inStep_start h host hs.2
  | stop => exact inStep_stop h
  | restart host =>
    simp only [step, restart_eq] at hs ⊢
    exact inStep_start (inStep_stop h) host hs.2
  | startEngine host => cases hs.1
  | stopEngine => cases hs.1
  | register host text b => rwa [step, InStep, register_condition]
  | update host id text => rwa [step, InStep, update_condition]
  | remove id => rwa [step, InStep, remove_condition]
  | tick host =>
    obtain ⟨-, ha⟩ | ⟨-, ticks, hc⟩ := repo.tick_cases host
    · simpa only [step, ha] using h
    · rwa [step, InStep, hc]

theorem inStep_steps (h : repo.InStep) (ss : List Step)
    (hs : repo.Along (fun r s => s.passesGuard = false ∧ (r.step s).1 ≠ .panicked) ss) :
    (repo.steps ss).InStep := by
  induction ss generalizing repo with
  | nil => exact h
  | cons s ss ih => exact ih (inStep_step h s hs.1) hs.2

theorem Fresh.inStep (h : repo.Fresh) : repo.InStep := by
  cases h <;> rfl

end Repository

/-- In every run of either repository, in which its engine may be started and stopped past the
guard: a start or a stop of what counts as started or stopped already is skipped, and one that is
not skipped brings guard and engine to the same state, if it succeeds; a restart is never skipped,
and no stop fails. An engine that does not run fires nothing until a start succeeds. A start that
is refused leaves tasks and fire times alone. Guard and engine agree for as long as the guard is not
passed and no start panics. -/
theorem engine_follows_guard (fresh : Repository) (hf : fresh.Fresh) (ss : List Repository.Step) :
    let repo := fresh.steps ss
    (∀ host, (repo.start host).1 = .ok () → (repo.start host).2.isStarted = true ∧
        (repo.isStarted = false → (repo.start host).2.engineRuns = true) ∧
        (repo.isStarted = true → (repo.start host).2 = repo)) ∧
      (∀ host, (repo.restart host).1 = .ok () →
        (repo.restart host).2.isStarted = true ∧ (repo.restart host).2.engineRuns = true) ∧
      (repo.stop.1 = .ok () ∧ repo.stop.2.isStarted = false ∧
        (repo.isStarted = true → repo.stop.2.engineRuns = false) ∧
        (repo.isStarted = false → repo.stop.2 = repo)) ∧
      (repo.engineRuns = false → ∀ later,
        repo.Along (fun r s => s.starts = true → (r.step s).1 ≠ .done) later →
          repo.fired later = []) ∧
      (∀ s, s.starts = true → (repo.step s).1 = .refused → (repo.step s).2.tasks = repo.tasks) ∧
      (fresh.Along (fun r s => s.passesGuard = false ∧ (r.step s).1 ≠ .panicked) ss →
        repo.engineRuns = repo.isStarted) := by
  intro repo
  have hsound : repo.condition.Sound := Repository.sound_steps hf.sound ss
  refine ⟨repo.start_eq_ok, fun host hok => ?_, repo.stop_eq_ok, fun hruns later hl => ?_,
    repo.tasks_of_refused, fun hs => ?_⟩
  · rw [repo.restart_eq host] at hok ⊢
    obtain ⟨hstarted, hruns, -⟩ := repo.stop.2.start_eq_ok host hok
    exact ⟨hstarted, hruns repo.stop_eq_ok.2.1⟩
  · -- what does not run has no timer, whatever has passed the guard before
    refine Repository.fired_of_quiet (Bool.eq_false_iff.mpr fun ht => ?_) later hl
    exact absurd (hruns.symm.trans (hsound ht)) nofun
  · exact (Repository.inStep_steps hf.inStep ss hs).symm.trans repo.condition_started

theorem engine_follows_guard_of_backup :
    let host : Host := ⟨1893456000000, true⟩
    let lone : Host := ⟨1893456000000, false⟩
    let fresh : Repository := .runner (.attach (.new none) none)
    let ss : List Repository.Step :=
      [.register host "* * * * *" (.runnable ⟨"backup", none, .success⟩), .start host, .stop]
    let later : List Repository.Step :=
      [.tick ⟨1893456060000, true⟩, .start lone, .startEngine lone, .tick ⟨1893456120000, true⟩]
    let repo := fresh.steps ss
    fresh.Fresh ∧ (repo.start host).1 = .ok () ∧ repo.isStarted = false ∧
      (repo.start host).2.engineRuns = true ∧ (repo.restart host).1 = .ok () ∧
      (repo.restart host).2.engineRuns = true ∧ repo.stop.2 = repo ∧ repo.engineRuns = false ∧
      repo.Along (fun r s => s.starts = true → (r.step s).1 ≠ .done) later ∧
      repo.fired later = [] ∧ (repo.step (.restart lone)).1 = .refused ∧
      (repo.step (.restart lone)).2.tasks = repo.tasks ∧
      fresh.Along (fun r s => s.passesGuard = false ∧ (r.step s).1 ≠ .panicked) ss ∧
      repo.engineRuns = repo.isStarted := by
  intro host lone fresh ss later repo
  have hf : fresh.Fresh := .runner none Runner.Engine.idOf none
  have hstarted : repo.isStarted = false := by decide +kernel
  have hruns : repo.engineRuns = false := by decide +kernel
  have hstart : (repo.start host).1 = .ok () := by decide +kernel
  have hrestart : (repo.restart host).1 = .ok () := by decide +kernel
  have hlater : repo.Along (fun r s => s.starts = true → (r.step s).1 ≠ .done) later := by
    refine ⟨?_, ?_, ?_, ?_, trivial⟩ <;> decide +kernel
  have hrefused : (repo.step (.restart lone)).1 = .refused := by decide +kernel
  have hss : fresh.Along (fun r s => s.passesGuard = false ∧ (r.step s).1 ≠ .panicked) ss := by
    refine ⟨?_, ?_, ?_, trivial⟩ <;> decide +kernel
  obtain ⟨h₁, h₂, h₃, h₄, h₅, h₆⟩ := engine_follows_guard fresh hf ss
  exact ⟨hf, hstart, hstarted, (h₁ host hstart).2.1 hstarted, hrestart, (h₂ host hrestart).2,
    h₃.2.2.2 hstarted, hruns, hlater, h₄ hruns later hlater, hrefused,
    h₅ (.restart lone) rfl hrefused, hss, h₆ hss⟩

/-- An engine that was stopped past the guard stays so, though a start succeeds, and one that was
started past the guard goes on firing, though a stop succeeds. -/
theorem engine_parts_from_guard :
    let host : Host := ⟨1893456000000, true⟩
    let reports : Registry := [("app.Reports",
      ⟨"app.Reports", fun _ => .done .success, [("daily", fun _ => .success)]⟩)]
    let triggers : Repository := .trigger (.attach (.fresh "m" .single) reports none)
    let runner : Repository := .runner (.attach (.new none) none)
    let daily : Repository.Step := .register host "* * * * * *" (.method "app.Reports" "daily")
    let backup : Repository.Step := .register host "* * * * *" (.runnable ⟨"backup", none, .success⟩)
    ∀ x ∈ [(triggers, daily), (runner, backup)],
      let halted := x.1.steps [.start host, .stopEngine]
      let driven := x.1.steps [x.2, .startEngine host]
      (Reply.of (halted.start host).1 = .done ∧ (halted.start host).2.isStarted = true ∧
          (halted.start host).2.engineRuns = false) ∧
        Reply.of (driven.stop.1.mapError .error) = .done ∧ driven.stop.2.isStarted = false ∧
          driven.stop.2.engineRuns = true ∧
          (driven.stop.2.fired [.tick ⟨1893456060000, true⟩]).length = 1 := by
  decide +kernel

end CronTasks
