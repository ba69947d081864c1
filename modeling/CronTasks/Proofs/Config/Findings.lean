import CronTasks.Builder
import CronTasks.Config.Diagnosis
import CronTasks.Proofs.Table

namespace CronTasks

open Calendar

theorem Properties.get?_eq_some_iff (ps : Properties) (key value : String) :
    ps.get? key = some value ↔ (key, value) ∈ ps.entries :=
  Table.get?_eq_some_iff ps.entries (ps.ascending.imp String.ne_of_lt) key value

theorem timezoneFindings_harmless (path : String) (name : Option String) :
    (∀ d ∈ timezoneFindings path name, d.severity ≠ .error) ↔
      ∃ zone, parseTimezone path name = .ok zone := by
  unfold timezoneFindings
  cases parseTimezone path name with
  | ok zone => simp
  | error e => simp [Finding.severity]

theorem propertyFindings_harmless (key value : String) :
    (∀ d ∈ propertyFindings key value, d.severity ≠ .error) ↔
      (key = Properties.threadCount → ∃ n, parseThreadCount value = .ok n ∧ 1 ≤ n) := by
  unfold propertyFindings
  by_cases hk : key = Properties.threadCount
  · simp only [hk, ↓reduceIte, true_imp_iff]
    rcases parseThreadCount value with e | _ | n
    · simp [Finding.severity]
    · simp [Finding.severity]
    · simp
  · simp only [hk, ↓reduceIte, false_imp_iff, iff_true]
    cases Text.closest? key knownProperties with
    | none => simp
    | some near => simp [Finding.severity]

theorem Config.findings_harmless (c : Config) :
    (∀ d ∈ c.findings, d.severity ≠ .error) ↔ 1 ≤ c.trigger.threadCount ∧
      (∃ zone, parseTimezone "trigger.timezone" c.trigger.timezone = .ok zone) ∧
      (∃ zone, parseTimezone "runner.timezone" c.runner.timezone = .ok zone) ∧
      ∀ value, c.trigger.properties.get? Properties.threadCount = some value →
        ∃ n, parseThreadCount value = .ok n ∧ 1 ≤ n := by
  have hproperties : (∀ p ∈ c.trigger.properties.entries, ∀ d ∈ propertyFindings p.1 p.2,
      d.severity ≠ .error) ↔ ∀ value, c.trigger.properties.get? Properties.threadCount = some value →
        ∃ n, parseThreadCount value = .ok n ∧ 1 ≤ n := by
    simp only [propertyFindings_harmless, Properties.get?_eq_some_iff]
    constructor
    · exact fun h value hm => h (Properties.threadCount, value) hm rfl
    · rintro h ⟨_, value⟩ hm rfl
      exact h value hm
  have hif (p : Prop) [Decidable p] (d : Finding) :
      (∀ e ∈ if p then [d] else [], e.severity ≠ .error) ↔ (p → d.severity ≠ .error) := by
    by_cases hp : p <;> simp [hp]
  simp only [findings, List.forall_mem_append, List.forall_mem_flatMap, timezoneFindings_harmless,
    hproperties, hif]
  -- what else may be found is a warning
  simp [Finding.severity, Nat.one_le_iff_ne_zero, and_assoc]

theorem TriggerSettings.ofConfig_eq_ok_iff (c : TriggerConfig) (s : TriggerSettings) :
    ofConfig c = .ok s ↔ c.threads = .ok s.threadCount ∧ 1 ≤ s.threadCount ∧
      parseTimezone "trigger.timezone" c.timezone = .ok s.zone ∧
      s.schedulerName = (c.properties.get? Properties.instanceName).getD c.schedulerName := by
  unfold ofConfig
  obtain ⟨name, threads, zone⟩ := s
  cases c.threads with
  | error e => simp [bind, Except.bind]
  | ok n =>
    by_cases hn : n = 0
    · simp [bind, Except.bind, throw, throwThe, MonadExceptOf.throw, hn]
      omega
    · cases parseTimezone "trigger.timezone" c.timezone with
      | error e => simp [bind, Except.bind, hn]
      | ok z =>
        simp only [bind, Except.bind, pure, Except.pure, hn, ↓reduceIte, Except.ok.injEq, mk.injEq]
        constructor
        · rintro ⟨rfl, rfl, rfl⟩
          exact ⟨rfl, Nat.pos_of_ne_zero hn, rfl, rfl⟩
        · rintro ⟨rfl, -, rfl, rfl⟩
          exact ⟨rfl, rfl, rfl⟩

theorem RunnerSettings.ofConfig_eq_ok_iff (c : RunnerConfig) (s : RunnerSettings) :
    ofConfig c = .ok s ↔ parseTimezone "runner.timezone" c.timezone = .ok s.zone := by
  unfold ofConfig
  obtain ⟨zone⟩ := s
  cases parseTimezone "runner.timezone" c.timezone with
  | error e => simp [bind, Except.bind]
  | ok z => simp [bind, Except.bind, pure, Except.pure]

theorem TriggerConfig.threads_cases (c : TriggerConfig) :
    (∃ value, c.properties.get? Properties.threadCount = some value ∧
        c.threads =
          (parseThreadCount value).mapError (.invalidProperty Properties.threadCount value)) ∨
      (c.properties.get? Properties.threadCount = none ∧ c.threads = .ok c.threadCount) := by
  unfold threads
  cases c.properties.get? Properties.threadCount with
  | some value => exact .inl ⟨value, rfl, rfl⟩
  | none => exact .inr ⟨rfl, rfl⟩

theorem TriggerConfig.customize_nil (c : TriggerConfig) : c.customize [] = c := by
  simp [customize, Customizer.sorted]

theorem Trigger.Threads.ofCount_cases (n : Nat) (h : 1 ≤ n) :
    (∃ threads : Threads, threads.count = n ∧ ofCount n = .ok threads) ∨
      (mostThreads < n ∧ ofCount n = .error .crowded) := by
  unfold ofCount
  split
  next hmost => exact .inl ⟨_, Nat.max_eq_left h, rfl⟩
  next hmost =>
    rw [Nat.max_eq_left h] at hmost
    exact .inr ⟨Nat.lt_of_not_le hmost, rfl⟩

/-- What is built are engines by the settings of a configuration that was customized, but not with
more threads than can be counted. -/
theorem TriggerConfig.build_cases (c : TriggerConfig) (registry : Registry) (cs : List Customizer) :
    (∃ e, TriggerSettings.ofConfig (c.customize cs) = .error e ∧
        c.build registry cs = .error (.error e)) ∨
      (∃ s, TriggerSettings.ofConfig (c.customize cs) = .ok s ∧ Trigger.mostThreads < s.threadCount ∧
        c.build registry cs = .error (.panic .crowded)) ∨
      ∃ s, ∃ threads : Trigger.Threads, TriggerSettings.ofConfig (c.customize cs) = .ok s ∧
        threads.count = s.threadCount ∧
        c.build registry cs = .ok (.attach (.fresh s.schedulerName threads) registry s.zone) := by
  unfold build
  cases hs : TriggerSettings.ofConfig (c.customize cs) with
  | error e => exact .inl ⟨e, rfl, rfl⟩
  | ok s =>
    have hpos := ((TriggerSettings.ofConfig_eq_ok_iff _ s).mp hs).2.1
    obtain ⟨threads, hcount, ht⟩ | ⟨hmost, ht⟩ := Trigger.Threads.ofCount_cases s.threadCount hpos
    · refine .inr (.inr ⟨s, threads, rfl, hcount, ?_⟩)
      simp only [Except.mapError, bind, Except.bind, Trigger.Engine.new, ht]
      rfl
    · refine .inr (.inl ⟨s, rfl, hmost, ?_⟩)
      simp only [Except.mapError, bind, Except.bind, Trigger.Engine.new, ht]
      rfl

theorem Config.build_runner (c : Config) (s : RunnerSettings)
    (h : RunnerSettings.ofConfig c.runner = .ok s) (registry : Registry) :
    { c with client := .runner }.build registry [] =
      .ok (.runner (.attach (.new s.zone) (some registry))) := by
  simp only [build, RunnerConfig.build, h]
  rfl

theorem Config.build_trigger (c : Config) (s : TriggerSettings)
    (h : TriggerSettings.ofConfig c.trigger = .ok s) (registry : Registry) :
    (s.threadCount ≤ Trigger.mostThreads →
        ∃ repo, { c with client := .trigger }.build registry [] = .ok (.trigger repo) ∧
          repo.engine.threads.count = s.threadCount ∧ repo.zone = s.zone) ∧
      (Trigger.mostThreads < s.threadCount →
        { c with client := .trigger }.build registry [] = .error (.panic .crowded)) := by
  have hcases := c.trigger.build_cases registry []
  rw [TriggerConfig.customize_nil, h] at hcases
  obtain ⟨e, he, -⟩ | ⟨_, ⟨⟩, hmost, hb⟩ | ⟨_, threads, ⟨⟩, hcount, hb⟩ := hcases
  · cases he
  · refine ⟨fun hle => absurd hmost (Nat.not_lt.mpr hle), fun _ => ?_⟩
    rw [build, hb]
    rfl
  · refine ⟨fun _ => ⟨_, by rw [build, hb]; rfl, hcount, rfl⟩, fun hmost => ?_⟩
    exact absurd (hcount ▸ threads.le_most) (Nat.not_le.mpr hmost)

/-- Where no error is found, both engines get their settings. The number of threads is that of the
property, or else that of the field, and there is at least one. The repository over the runner engine
is built, and that over the trigger engine unless there are more threads than can be counted: this is
a panic. -/
theorem harmless_config_builds (c : Config) (h : ∀ d ∈ c.findings, d.severity ≠ .error)
    (registry : Registry) :
    ∃ s t, TriggerSettings.ofConfig c.trigger = .ok s ∧ RunnerSettings.ofConfig c.runner = .ok t ∧
      1 ≤ s.threadCount ∧
      (∀ value, c.trigger.properties.get? Properties.threadCount = some value →
        parseThreadCount value = .ok s.threadCount) ∧
      (c.trigger.properties.get? Properties.threadCount = none →
        s.threadCount = c.trigger.threadCount) ∧
      (s.threadCount ≤ Trigger.mostThreads →
        ∃ repo, { c with client := .trigger }.build registry [] = .ok (.trigger repo) ∧
          repo.engine.threads.count = s.threadCount ∧ repo.zone = s.zone) ∧
      (Trigger.mostThreads < s.threadCount →
        { c with client := .trigger }.build registry [] = .error (.panic .crowded)) ∧
      ∃ repo, { c with client := .runner }.build registry [] = .ok (.runner repo) ∧
        repo.engine.zone = t.zone := by
  obtain ⟨hfield, ⟨zone, hz⟩, ⟨zone', hz'⟩, hproperty⟩ := c.findings_harmless.mp h
  obtain ⟨n, hn, hpos, hvalue, hnone⟩ : ∃ n, c.trigger.threads = .ok n ∧ 1 ≤ n ∧
      (∀ value, c.trigger.properties.get? Properties.threadCount = some value →
        parseThreadCount value = .ok n) ∧
      (c.trigger.properties.get? Properties.threadCount = none → n = c.trigger.threadCount) := by
    obtain ⟨value, hg, ht⟩ | ⟨hg, ht⟩ := c.trigger.threads_cases
    · obtain ⟨n, hn, hpos⟩ := hproperty value hg
      rw [hn] at ht
      refine ⟨n, ht, hpos, ?_, by simp [hg]⟩
      rintro _ hg'
      cases hg.symm.trans hg'
      exact hn
    · exact ⟨_, ht, hfield, by simp [hg], fun _ => rfl⟩
  have hs := (TriggerSettings.ofConfig_eq_ok_iff c.trigger ⟨_, n, zone⟩).mpr ⟨hn, hpos, hz, rfl⟩
  have ht := (RunnerSettings.ofConfig_eq_ok_iff c.runner ⟨zone'⟩).mpr hz'
  obtain ⟨hbuild, hcrowded⟩ := c.build_trigger _ hs registry
  exact ⟨_, _, hs, ht, hpos, hvalue, hnone, hbuild, hcrowded, _, c.build_runner _ ht registry, rfl⟩

theorem padded_config_builds :
    let c : Config :=
      { trigger :=
          { timezone := some " Europe/Paris "
            properties := .ofList [("threadPool.threadCount", " +4 ")] }
        runner := { timezone := some " " } }
    (∀ d ∈ c.findings, d.severity ≠ .error) ∧
      ∃ repo, c.build [] [] = .ok (.trigger repo) ∧ repo.engine.threads.count = 4 := by
  intro c
  have h : ∀ d ∈ c.findings, d.severity ≠ .error := by decide +kernel
  obtain ⟨s, t, -, -, -, hvalue, -, hbuild, -⟩ := harmless_config_builds c h []
  have hs : parseThreadCount " +4 " = .ok s.threadCount := hvalue " +4 " (by decide +kernel)
  have hfour : parseThreadCount " +4 " = .ok 4 := by decide +kernel
  rw [hfour] at hs
  have hcount : 4 = s.threadCount := Except.ok.inj hs
  obtain ⟨repo, hb, hn, -⟩ := hbuild (by rw [← hcount]; decide)
  exact ⟨h, repo, hb, hn.trans hcount.symm⟩

/-- Nothing is wrong with the greatest signed word as a number of threads, but for the panic of the
engine that is to have them. -/
theorem crowded_config_panics :
    let c : Config := { trigger := { threadCount := 9223372036854775807 } }
    (∀ d ∈ c.findings, d.severity ≠ .error) ∧ c.build [] [] = .error (.panic .crowded) := by
  intro c
  have hs : TriggerSettings.ofConfig c.trigger = .ok ⟨"CronScheduler", 9223372036854775807, none⟩ := rfl
  exact ⟨by decide +kernel, (c.build_trigger _ hs []).2 (by decide)⟩

end CronTasks
