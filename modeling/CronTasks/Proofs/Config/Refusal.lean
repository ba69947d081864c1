import CronTasks.Proofs.Config.Findings

namespace CronTasks

/-- One of the engines does not get its settings. -/
def Config.Refused (c : Config) : Prop :=
  (∃ e, TriggerSettings.ofConfig c.trigger = .error e) ∨
    ∃ e, RunnerSettings.ofConfig c.runner = .error e

/-- Findings about a field that a property takes the place of. -/
def Config.Overrides (c : Config) (d : Finding) : Prop :=
  d = .zeroThreads "trigger.thread_count" ∧ c.trigger.properties.contains Properties.threadCount

theorem exists_error_iff {ε α : Type} (r : Except ε α) :
    (∃ e, r = .error e) ↔ ¬ ∃ a, r = .ok a := by
  cases r <;> simp

theorem Properties.contains_eq_isSome (ps : Properties) (key : String) :
    ps.contains key = (ps.get? key).isSome := by
  rw [Bool.eq_iff_iff, contains, Table.contains_iff, Option.isSome_iff_ne_none, ne_eq, get?,
    Table.get?_eq_none_iff, not_not]

theorem TriggerConfig.threads_iff (c : TriggerConfig) :
    (∃ n, c.threads = .ok n ∧ 1 ≤ n) ↔
      (c.properties.contains Properties.threadCount = false → 1 ≤ c.threadCount) ∧
        ∀ value, c.properties.get? Properties.threadCount = some value →
          ∃ n, parseThreadCount value = .ok n ∧ 1 ≤ n := by
  rw [Properties.contains_eq_isSome]
  obtain ⟨value, hg, ht⟩ | ⟨hg, ht⟩ := c.threads_cases
  · have hok (n : Nat) : c.threads = .ok n ↔ parseThreadCount value = .ok n := by
      rw [ht]
      cases parseThreadCount value <;> simp [Except.mapError]
    simp [hok, hg]
  · simp [ht, hg]

theorem Config.not_refused_iff (c : Config) :
    ¬ c.Refused ↔
      (c.trigger.properties.contains Properties.threadCount = false → 1 ≤ c.trigger.threadCount) ∧
      (∃ zone, parseTimezone "trigger.timezone" c.trigger.timezone = .ok zone) ∧
      (∃ zone, parseTimezone "runner.timezone" c.runner.timezone = .ok zone) ∧
      ∀ value, c.trigger.properties.get? Properties.threadCount = some value →
        ∃ n, parseThreadCount value = .ok n ∧ 1 ≤ n := by
  have htrigger : (∃ s, TriggerSettings.ofConfig c.trigger = .ok s) ↔
      (∃ n, c.trigger.threads = .ok n ∧ 1 ≤ n) ∧
        ∃ zone, parseTimezone "trigger.timezone" c.trigger.timezone = .ok zone := by
    simp only [TriggerSettings.ofConfig_eq_ok_iff]
    constructor
    · rintro ⟨s, hn, hpos, hz, -⟩
      exact ⟨⟨_, hn, hpos⟩, _, hz⟩
    · rintro ⟨⟨n, hn, hpos⟩, zone, hz⟩
      exact ⟨⟨_, n, zone⟩, hn, hpos, hz, rfl⟩
  have hrunner : (∃ t, RunnerSettings.ofConfig c.runner = .ok t) ↔
      ∃ zone, parseTimezone "runner.timezone" c.runner.timezone = .ok zone := by
    simp only [RunnerSettings.ofConfig_eq_ok_iff]
    exact ⟨fun ⟨t, ht⟩ => ⟨_, ht⟩, fun ⟨zone, hz⟩ => ⟨⟨zone⟩, hz⟩⟩
  rw [Refused, exists_error_iff, exists_error_iff, ← not_and_or, not_not, htrigger, hrunner,
    c.trigger.threads_iff]
  tauto

theorem zeroThreads_not_mem_timezoneFindings (path path' : String) (name : Option String) :
    .zeroThreads path' ∉ timezoneFindings path name := by
  unfold timezoneFindings
  cases parseTimezone path name <;> simp

theorem zeroThreads_not_mem_propertyFindings (key value : String) :
    .zeroThreads "trigger.thread_count" ∉ propertyFindings key value := by
  have hpath : "trigger.thread_count" ≠ Finding.propertyPath Properties.threadCount := by decide
  unfold propertyFindings
  split
  next hk =>
    rcases parseThreadCount value with e | _ | n
    · simp
    · simp [hk, hpath]
    · simp
  · simp

theorem Config.zeroThreads_mem_findings (c : Config) :
    .zeroThreads "trigger.thread_count" ∈ c.findings ↔ c.trigger.threadCount = 0 := by
  simp [findings, zeroThreads_not_mem_timezoneFindings, zeroThreads_not_mem_propertyFindings]

theorem Config.findings_eq (c : Config) : c.findings =
    (if c.trigger.threadCount = 0 then [.zeroThreads "trigger.thread_count"] else []) ++
      { c with trigger.threadCount := 1 }.findings := by
  simp [findings]

theorem Config.mem_findings_iff (c : Config) (d : Finding)
    (hd : d ≠ .zeroThreads "trigger.thread_count") :
    d ∈ { c with trigger.threadCount := 1 : Config }.findings ↔ d ∈ c.findings := by
  rw [c.findings_eq, List.mem_append]
  split <;> simp [hd]

theorem Config.overrides_iff (c : Config) :
    (∀ d ∈ c.findings, d.severity = .error → c.Overrides d) ↔ ¬ c.Refused := by
  rw [c.not_refused_iff]
  by_cases hk : c.trigger.properties.contains Properties.threadCount
  · let rest : Config := { c with trigger.threadCount := 1 }
    have hfield := mt rest.zeroThreads_mem_findings.mp Nat.one_ne_zero
    -- the property decides, so that the field can be taken to be in order
    have hrest : (∀ d ∈ c.findings, d.severity = .error → c.Overrides d) ↔
        ∀ d ∈ rest.findings, d.severity ≠ .error := by
      constructor
      · intro ho d hd he
        have hne : d ≠ .zeroThreads "trigger.thread_count" := fun hd' => hfield (hd' ▸ hd)
        exact hne (ho d ((c.mem_findings_iff d hne).mp hd) he).1
      · intro hn d hd he
        by_contra hne
        exact hn d ((c.mem_findings_iff d fun hd' => hne ⟨hd', hk⟩).mpr hd) he
    rw [hrest, rest.findings_harmless]
    simp [rest, hk]
  · have hfield := c.findings_harmless
    simp [Overrides, hk, hfield]

/-- An error means that an engine refuses, unless it is about a field that a property takes the place
of, and every refusal comes with such an error. -/
theorem errors_mean_refusal (c : Config) :
    ((∃ d ∈ c.findings, d.severity = .error ∧ ¬ c.Overrides d) ↔ c.Refused) ∧
      (c.trigger.threadCount ≠ 0 ∨ c.trigger.properties.contains Properties.threadCount = false →
        ((∃ d ∈ c.findings, d.severity = .error) ↔ c.Refused)) := by
  have hiff : (∃ d ∈ c.findings, d.severity = .error ∧ ¬ c.Overrides d) ↔ c.Refused := by
    rw [← not_iff_not, ← c.overrides_iff]
    push Not
    rfl
  refine ⟨hiff, fun hfield => ?_⟩
  have hnone (d : Finding) (hd : d ∈ c.findings) : ¬ c.Overrides d := by
    rintro ⟨rfl, hk⟩
    exact hfield.elim (fun hn => hn (c.zeroThreads_mem_findings.mp hd)) (Bool.eq_false_iff.mp · hk)
  rw [← hiff]
  constructor
  · exact fun ⟨d, hd, he⟩ => ⟨d, hd, he, hnone d hd⟩
  · exact fun ⟨d, hd, he, _⟩ => ⟨d, hd, he⟩

theorem unthreaded_config_refused :
    let c : Config := { trigger := { properties := .ofList [("threadPool.threadCount", "0")] } }
    (∃ d ∈ c.findings, d.severity = .error ∧ ¬ c.Overrides d) ∧ c.Refused := by
  intro c
  have hiff := (errors_mean_refusal c).2 (.inl (by decide))
  have he : ∃ d ∈ c.findings, d.severity = .error := by decide +kernel
  have hr := hiff.mp he
  exact ⟨(errors_mean_refusal c).1.mpr hr, hr⟩

/-- The field asks for no threads, though the property asks for four: an error, and no refusal. -/
theorem overridden_field_not_refused :
    let c : Config :=
      { trigger := { threadCount := 0, properties := .ofList [("threadPool.threadCount", "4")] } }
    (∃ d ∈ c.findings, d.severity = .error) ∧ ¬ c.Refused ∧
      (TriggerSettings.ofConfig c.trigger).map (·.threadCount) = .ok 4 := by
  intro c
  have hs : TriggerSettings.ofConfig c.trigger = .ok ⟨"CronScheduler", 4, none⟩ := by decide +kernel
  have ht : RunnerSettings.ofConfig c.runner = .ok ⟨none⟩ := by decide +kernel
  refine ⟨by decide +kernel, ?_, by rw [hs]; rfl⟩
  rintro (⟨e, he⟩ | ⟨e, he⟩)
  · cases hs.symm.trans he
  · cases ht.symm.trans he

end CronTasks
