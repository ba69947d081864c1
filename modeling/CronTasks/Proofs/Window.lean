import CronTasks.Proofs.Runner.Window
import CronTasks.Proofs.Trigger.Window

namespace CronTasks

open Calendar Cron

/-- From the time on at which a task is scheduled, or the runner is started, a tick that is not
in the last second fires the task once if an instant of its schedule lies after the tick before
and not after itself, and not at all otherwise. -/
theorem ticks_fire_by_windows (S : Set Instant) (t : Instant) (fired : List Instant → List Nat)
    (ts : List Instant) (hs : (t :: ts).Pairwise (· ≤ ·)) :
    (Trigger.Engine.Onset S t fired → fired ts = windowCounts S t ts) ∧
      (Runner.Engine.Onset S t fired → fired ts = windowCounts S t ts) :=
  ⟨fun h => Trigger.Engine.counts_of_onset S t fired h ts hs,
    fun h => Runner.Engine.counts_of_onset S t fired h ts hs⟩

def engineOf (now : Instant) (x : Expression) : Trigger.Engine :=
  let detail := JobDetail.ofMethod "Reports" "daily"
  ((Trigger.Engine.fresh "main" .single).schedule ⟨now, true⟩ detail
    ⟨detail.key.triggerKey, detail.key, .cron x none⟩).2

def runnerOf (now : Instant) (p : Pattern) : Runner.Engine :=
  ((Runner.Engine.new none).schedule ⟨now, true⟩ p (.runnable ⟨"work", none, .success⟩)).2

theorem schedule_engineOf (now first : Instant) (x : Expression)
    (hn : Host.searches ⟨now, true⟩ = true) (hf : x.next? now none = .ok (some first)) :
    let detail := JobDetail.ofMethod "Reports" "daily"
    let trigger : Trigger := ⟨detail.key.triggerKey, detail.key, .cron x none⟩
    let e := Trigger.Engine.fresh "main" .single
    e.schedule ⟨now, true⟩ detail trigger = (.ok first, { e with
      store := ⟨[(detail.key, detail)], [(trigger.key, ⟨trigger, first⟩)]⟩ }) := by
  intro detail trigger e
  have hfirst : Trigger.Store.firstFire now trigger = .ok first :=
    (Trigger.Store.firstFire_eq_ok_iff now first trigger).mpr hf
  have hs : Trigger.Store.empty.schedule now detail trigger =
      .ok (first, ⟨[(detail.key, detail)], [(trigger.key, ⟨trigger, first⟩)]⟩) :=
    (Trigger.Store.schedule_eq_ok_iff _ _ now first detail trigger).mpr
      ⟨List.not_mem_nil, List.not_mem_nil, hfirst, rfl⟩
  have hnow : Host.now ⟨now, true⟩ = .ok now := ((Host.searches_iff _).mp hn).1
  simp only [Trigger.Engine.schedule, Trigger.Engine.update, hnow, e, Trigger.Engine.fresh, hs]

theorem triggers_engineOf (now first : Instant) (x : Expression)
    (hn : Host.searches ⟨now, true⟩ = true) (hf : x.next? now none = .ok (some first)) :
    (engineOf now x).store.triggers = [(⟨"daily", "Reports"⟩,
      ⟨⟨⟨"daily", "Reports"⟩, ⟨"daily", "Reports"⟩, .cron x none⟩, first⟩)] :=
  congrArg (·.2.store.triggers) (schedule_engineOf now first x hn hf)

theorem onset_engineOf (now first : Instant) (x : Expression) (hx : x.Accepted)
    (hn : Host.searches ⟨now, true⟩ = true) (hf : x.next? now none = .ok (some first)) :
    Trigger.Engine.Onset x.instants now
      (tickCounts (Trigger.Engine.tickOf ⟨"daily", "Reports"⟩) (engineOf now x)) := by
  have hs := congrArg Prod.fst (schedule_engineOf now first x hn hf)
  exact .schedule _ _ ⟨"main", .single, [], rfl⟩ ⟨now, true⟩ (.ofMethod "Reports" "daily")
    _ x hx rfl first (Prod.ext hs rfl)

theorem onset_runnerOf (now : Instant) (p : Pattern) (hp : p.Accepted)
    (hn : Host.searches ⟨now, true⟩ = true) :
    Runner.Engine.Onset p.instants now
      (tickCounts (Runner.Engine.tickOf (Runner.Engine.idOf 0)) (runnerOf now p)) := by
  have hs := ((Runner.Engine.new none).schedule_eq_ok_iff _ ⟨now, true⟩ p hp.ne_nil
    (.runnable ⟨"work", none, .success⟩) _).mpr ⟨hn, rfl, rfl⟩
  rw [runnerOf, hs]
  exact .schedule (.new none) _ ⟨none, [], rfl⟩ rfl ⟨now, true⟩ p hp _ _ hs

theorem parsePattern_every_second : ∃ p, Pattern.parse "* * * * * *" = .ok p ∧
    p.next? 1893456000000 none = .ok (some 1893456001000) :=
  exists_ok_of_any (by decide +kernel)

/-- Ticks within the same second, and some seconds later, of what fires every second. -/
theorem every_second_fires_by_windows :
    ∃ x p, Expression.parse "* * * * * *" = .ok x ∧ Pattern.parse "* * * * * *" = .ok p ∧
      let ts := [1893456000500, 1893456003000, 1893456003000]
      let jobs := tickCounts (Trigger.Engine.tickOf ⟨"daily", "Reports"⟩)
        (engineOf 1893456000000 x) ts
      let launches := tickCounts (Runner.Engine.tickOf (Runner.Engine.idOf 0))
        (runnerOf 1893456000000 p) ts
      jobs = windowCounts x.instants 1893456000000 ts ∧
        launches = windowCounts p.instants 1893456000000 ts := by
  obtain ⟨x, hx, hxn⟩ := parse_every_second
  obtain ⟨p, hp, -⟩ := parsePattern_every_second
  refine ⟨x, p, hx, hp, ?_, ?_⟩
  · exact (ticks_fire_by_windows _ _ _ _ (by simp)).1
      (onset_engineOf _ _ x ⟨_, .inl hx⟩ (by decide) hxn)
  · exact (ticks_fire_by_windows _ _ _ _ (by simp)).2
      (onset_runnerOf 1893456000000 p ⟨_, hp⟩ (by decide))

/-- In the last second a tick fires nothing although an instant lies in its window. -/
theorem windows_missed_in_the_last_second :
    ∃ x p, Expression.parse "* * * * * *" = .ok x ∧ Pattern.parse "* * * * * *" = .ok p ∧
      (Trigger.Engine.Onset x.instants 1893456000000
          (tickCounts (Trigger.Engine.tickOf ⟨"daily", "Reports"⟩) (engineOf 1893456000000 x)) ∧
        (x.instants ∩ Set.Ioc 1893456000000 8210266876799999).Nonempty ∧
        tickCounts (Trigger.Engine.tickOf ⟨"daily", "Reports"⟩) (engineOf 1893456000000 x)
          [8210266876799999] = [0]) ∧
      Runner.Engine.Onset p.instants 1893456000000
          (tickCounts (Runner.Engine.tickOf (Runner.Engine.idOf 0)) (runnerOf 1893456000000 p)) ∧
        (p.instants ∩ Set.Ioc 1893456000000 8210266876799999).Nonempty ∧
        tickCounts (Runner.Engine.tickOf (Runner.Engine.idOf 0)) (runnerOf 1893456000000 p)
          [8210266876799999] = [0] := by
  obtain ⟨x, hx, hxn⟩ := parse_every_second
  obtain ⟨p, hp, hpn⟩ := parsePattern_every_second
  have hxa : x.Accepted := ⟨_, .inl hx⟩
  have hpa : p.Accepted := ⟨_, hp⟩
  have hxi := x.isFirst_search? hxa.ordered 1893456000000 (by decide)
  rw [((x.next?_eq_ok_iff _ _ _).mp hxn).2] at hxi
  have hpi := p.isFirst_search? hpa.ordered 1893456000000 (by decide)
  rw [Pattern.search?_of_next? hpn] at hpi
  have hjob := onset_engineOf _ _ x hxa (by decide) hxn
  have hlaunch := onset_runnerOf 1893456000000 p hpa (by decide)
  have hle : (1893456001000 : Instant) ≤ 8210266876799999 := by decide
  refine ⟨x, p, hx, hp, ⟨hjob, ⟨_, hxi.1.1, hxi.1.2, hle⟩, ?_⟩,
    hlaunch, ⟨_, hpi.1.1, hpi.1.2, hle⟩, ?_⟩
  · rw [Trigger.Engine.counts_of_onset _ _ _ hjob _ (by simp), windowCounts, windowCounts,
      if_neg fun h => absurd h.1 (by decide)]
  · rw [Runner.Engine.counts_of_onset _ _ _ hlaunch _ (by simp), windowCounts, windowCounts,
      if_neg fun h => absurd h.1 (by decide)]

end CronTasks
