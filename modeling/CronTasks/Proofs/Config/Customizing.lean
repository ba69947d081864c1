import CronTasks.Proofs.Config.Findings
import CronTasks.Proofs.Sorting
import Mathlib.Data.Int.Order.Basic
import Mathlib.Data.List.Induction

namespace CronTasks

namespace Properties

theorem get?_insert (key value : String) (ps : Table String String) (k : String) :
    Table.get? (insert key value ps) k = if k = key then some value else Table.get? ps k := by
  have hcons (e : String × String) (ps : Table String String) :
      Table.get? (e :: ps) k = if k = e.1 then some e.2 else Table.get? ps k := by
    rw [Table.get?_cons]
    exact if_congr (beq_iff_eq.trans eq_comm) rfl rfl
  induction ps with
  | nil => exact hcons (key, value) []
  | cons p ps ih =>
    rw [insert]
    by_cases hlt : key < p.1
    · rw [if_pos hlt]
      exact hcons (key, value) (p :: ps)
    · rw [if_neg hlt]
      by_cases he : key = p.1
      · rw [if_pos he, hcons, hcons p, he]
        split <;> rfl
      · rw [if_neg he, hcons, hcons, ih]
        by_cases hk : k = p.1
        · rw [if_pos hk, if_pos hk, if_neg fun h => he (h.symm.trans hk)]
        · rw [if_neg hk, if_neg hk]

theorem get?_set (ps : Properties) (key value k : String) :
    (ps.set key value).get? k = if k = key then some value else ps.get? k :=
  get?_insert key value ps.entries k

theorem get?_foldl_set (ps : Properties) (given : List (String × String)) (k : String) :
    (given.foldl (fun ps e => ps.set e.1 e.2) ps).get? k = ((ofList given).get? k).or (ps.get? k) := by
  unfold ofList
  induction given using List.reverseRecOn with
  | nil => rfl
  | append_singleton given e ih =>
    simp only [List.foldl_append, List.foldl_cons, List.foldl_nil, get?_set, ih]
    split
    · rfl
    · rfl

end Properties

/-- A customizer that gives fixed values to keys. -/
structure Writer where
  order : Int
  given : List (String × String)

namespace Writer

def customizer (w : Writer) : Customizer := .edit w.order [] w.given []

def value? (w : Writer) (key : String) : Option String := (Properties.ofList w.given).get? key

theorem get?_apply (w : Writer) (ps : Properties) (key : String) :
    (w.customizer.apply ps).get? key = (w.value? key).or (ps.get? key) :=
  ps.get?_foldl_set w.given key

theorem get?_foldl_apply (ws : List Writer) (key : String) (h : ∀ w ∈ ws, w.value? key = none)
    (ps : Properties) :
    (ws.foldl (fun ps w => w.customizer.apply ps) ps).get? key = ps.get? key := by
  induction ws generalizing ps with
  | nil => rfl
  | cons w ws ih =>
    obtain ⟨hw, hws⟩ := List.forall_mem_cons.mp h
    rw [List.foldl_cons, ih hws, get?_apply, hw, Option.none_or]

theorem properties_customize (c : TriggerConfig) (ws : List Writer) :
    (c.customize (ws.map customizer)).properties =
      (sortedBy order ws).foldl (fun ps w => w.customizer.apply ps) c.properties := by
  have hsorted : Customizer.sorted (ws.map customizer) = (sortedBy order ws).map customizer :=
    (List.map_mergeSort (f := customizer) fun _ _ _ _ => rfl).symm
  rw [TriggerConfig.customize, hsorted, List.foldl_map]

theorem get?_customize_of_isLast (c : TriggerConfig) (ws : List Writer) (key : String) (w : Writer)
    (h : IsLast order (fun w => w.value? key ≠ none) w ws) :
    (c.customize (ws.map customizer)).properties.get? key = w.value? key := by
  obtain ⟨value, hvalue⟩ : ∃ value, w.value? key = some value := by
    obtain ⟨_, _, -, hw, -⟩ := h
    exact Option.ne_none_iff_exists'.mp hw
  obtain ⟨front, back, hsort, hback⟩ := h.exists_sortedBy_eq
  rw [properties_customize, hsort, List.foldl_append, List.foldl_cons,
    get?_foldl_apply back key fun b hb => not_not.mp (hback b hb), get?_apply, hvalue, Option.some_or]

theorem get?_customize_of_not_written (c : TriggerConfig) (ws : List Writer) (key : String)
    (h : ∀ w ∈ ws, w.value? key = none) :
    (c.customize (ws.map customizer)).properties.get? key = c.properties.get? key := by
  rw [properties_customize]
  exact get?_foldl_apply _ key (fun w hw => h w (List.mem_mergeSort.mp hw)) c.properties

end Writer

namespace TriggerConfig

theorem build_eq_error_iff (c : TriggerConfig) (registry : Registry) (cs : List Customizer)
    (e : ConfigError) : c.build registry cs = .error (.error e) ↔
      TriggerSettings.ofConfig (c.customize cs) = .error e := by
  obtain ⟨_, he, hb⟩ | ⟨_, hs, -, hb⟩ | ⟨_, _, hs, -, hb⟩ := c.build_cases registry cs
  · simp [he, hb]
  · simp [hs, hb]
  · simp [hs, hb]

theorem build_eq_ok_iff (c : TriggerConfig) (registry : Registry) (cs : List Customizer)
    (repo : Trigger.Repository) : c.build registry cs = .ok repo ↔
      ∃ s, ∃ threads : Trigger.Threads, TriggerSettings.ofConfig (c.customize cs) = .ok s ∧
        threads.count = s.threadCount ∧
        repo = .attach (.fresh s.schedulerName threads) registry s.zone := by
  obtain ⟨_, he, hb⟩ | ⟨s, hs, hmost, hb⟩ | ⟨s, threads, hs, hcount, hb⟩ := c.build_cases registry cs
  · simp [he, hb]
  · refine iff_of_false (by simp [hb]) ?_
    rintro ⟨_, threads, hs', hcount, -⟩
    cases hs.symm.trans hs'
    exact absurd (hcount ▸ threads.le_most) (Nat.not_le.mpr hmost)
  · rw [hb, Except.ok.injEq]
    constructor
    · exact fun h => ⟨s, threads, hs, hcount, h.symm⟩
    · rintro ⟨_, threads', hs', hcount', rfl⟩
      cases hs.symm.trans hs'
      rw [Trigger.Threads.ext (hcount.trans hcount'.symm)]

theorem build_panics_iff (c : TriggerConfig) (registry : Registry) (cs : List Customizer)
    (p : Payload) : c.build registry cs = .error (.panic p) ↔
      p = .crowded ∧ ∃ s, TriggerSettings.ofConfig (c.customize cs) = .ok s ∧
        Trigger.mostThreads < s.threadCount := by
  obtain ⟨_, he, hb⟩ | ⟨_, hs, hmost, hb⟩ | ⟨_, threads, hs, hcount, hb⟩ := c.build_cases registry cs
  · simp [he, hb]
  · simp [hs, hb, hmost, eq_comm]
  · simp [hs, hb, hcount ▸ threads.le_most]

end TriggerConfig

/-- Customizers change the properties one after the other, along any list in which they ascend by
order and those of one order stand as they were given. -/
theorem TriggerConfig.customize_eq (c : TriggerConfig) (cs ds : List Customizer)
    (hd : ds.Pairwise fun f g => f.order ≤ g.order)
    (h : ∀ n, cs.filter (·.order = n) = ds.filter (·.order = n)) :
    c.customize cs = { c with properties := ds.foldl (fun ps f => f.apply ps) c.properties } := by
  have hsorted : Customizer.sorted cs = ds := by
    apply eq_of_filter_eq Customizer.order _ _ (pairwise_sortedBy Customizer.order cs) hd
    intro n
    rw [← h n]
    exact filter_sortedBy Customizer.order cs n
  rw [customize, hsorted]

theorem TriggerConfig.customize_congr (c : TriggerConfig) (cs ds : List Customizer)
    (h : ∀ n, cs.filter (·.order = n) = ds.filter (·.order = n)) : c.customize cs = c.customize ds := by
  have hsorted : Customizer.sorted cs = Customizer.sorted ds := sortedBy_congr Customizer.order h
  rw [customize, customize, hsorted]

/-- A repository is built by the settings of the configuration that customizers leave, or refused
like these; more threads than can be counted are a panic. Customizers change the properties and
nothing else, by order and then by place, so that lists of the same customizers in which those of one
order stand in the same sequence lead to the same settings and the same repository, or to the same
error. Where they write fixed values, a property has the value of the last writer of its key, or the
value that the configuration gives it where none writes the key. -/
theorem customizers_run_by_order (c : TriggerConfig) :
    (∀ (cs : List Customizer) (registry : Registry),
      (∀ e, c.build registry cs = .error (.error e) ↔
          TriggerSettings.ofConfig (c.customize cs) = .error e) ∧
        (∀ repo, c.build registry cs = .ok repo ↔ ∃ s, ∃ threads : Trigger.Threads,
          TriggerSettings.ofConfig (c.customize cs) = .ok s ∧ threads.count = s.threadCount ∧
            repo = .attach (.fresh s.schedulerName threads) registry s.zone) ∧
        ∀ p, c.build registry cs = .error (.panic p) ↔ p = .crowded ∧
          ∃ s, TriggerSettings.ofConfig (c.customize cs) = .ok s ∧
            Trigger.mostThreads < s.threadCount) ∧
      (∀ cs ds : List Customizer, (∀ n, cs.filter (·.order = n) = ds.filter (·.order = n)) →
        (ds.Pairwise (fun f g => f.order ≤ g.order) → c.customize cs =
            { c with properties := ds.foldl (fun ps f => f.apply ps) c.properties }) ∧
          TriggerSettings.ofConfig (c.customize cs) = TriggerSettings.ofConfig (c.customize ds) ∧
          ∀ registry, c.build registry cs = c.build registry ds) ∧
      ∀ (ws : List Writer) (key : String),
        let seen := (c.customize (ws.map Writer.customizer)).properties.get? key
        (∀ w, IsLast Writer.order (fun w => w.value? key ≠ none) w ws → seen = w.value? key) ∧
          ((¬ ∃ w, IsLast Writer.order (fun w => w.value? key ≠ none) w ws) →
            (∀ w ∈ ws, w.value? key = none) ∧ seen = c.properties.get? key) := by
  refine ⟨fun cs registry => ?_, fun cs ds h => ⟨fun hd => c.customize_eq cs ds hd h, ?_, ?_⟩,
    fun ws key => ⟨fun w hw => ?_, fun hnone => ?_⟩⟩
  · exact ⟨c.build_eq_error_iff registry cs, c.build_eq_ok_iff registry cs,
      c.build_panics_iff registry cs⟩
  · rw [c.customize_congr cs ds h]
  · intro registry
    rw [TriggerConfig.build, TriggerConfig.build, c.customize_congr cs ds h]
  · exact Writer.get?_customize_of_isLast c ws key w hw
  · have hall : ∀ w ∈ ws, w.value? key = none := fun w hw =>
      not_not.mp fun hne => hnone (exists_isLast _ _ ws ⟨w, hw, hne⟩)
    exact ⟨hall, Writer.get?_customize_of_not_written c ws key hall⟩

/-- The later order has its way, though it is given first. -/
theorem customizers_run_by_order_of_reports :
    let reports : Writer := ⟨10, [("scheduler.instanceName", "reports")]⟩
    let first : Writer := ⟨0, [("scheduler.instanceName", "first")]⟩
    let given : TriggerConfig := {}
    let customized := given.customize ([reports, first].map Writer.customizer)
    customized.properties.get? "scheduler.instanceName" = some "reports" ∧
      customized.properties.get? "other" = given.properties.get? "other" ∧
      customized = { given with
        properties := reports.customizer.apply (first.customizer.apply given.properties) } ∧
      given.build [] ([first, reports].map Writer.customizer) =
        .ok (.attach (.fresh "reports" ⟨10, by decide, by decide⟩) [] none) := by
  intro reports first given customized
  obtain ⟨hbuild, horder, hproperty⟩ := customizers_run_by_order given
  have hties (n : Int) : ([reports, first].map Writer.customizer).filter (·.order = n) =
      ([first, reports].map Writer.customizer).filter (·.order = n) := by
    by_cases hn : n = 10
    · subst hn
      rfl
    · by_cases hn' : n = 0
      · subst hn'
        rfl
      · simp [reports, first, Writer.customizer, Customizer.edit, Ne.symm hn, Ne.symm hn']
  have hlast : IsLast Writer.order (fun w => w.value? "scheduler.instanceName" ≠ none) reports
      [reports, first] :=
    ⟨[], [first], rfl, nofun, nofun, by decide⟩
  have hother : ¬ ∃ w, IsLast Writer.order (fun w => w.value? "other" ≠ none) w [reports, first] := by
    rintro ⟨w, before, after, hws, hw, -⟩
    have hm : w ∈ [reports, first] := hws ▸ List.mem_append_right before List.mem_cons_self
    have hnone : ∀ w ∈ [reports, first], w.value? "other" = none := by decide
    exact hw (hnone w hm)
  obtain ⟨hcustomized, -, hsame⟩ := horder _ _ hties
  have hc := hcustomized (List.pairwise_pair.mpr (by decide))
  have hs := congrArg TriggerSettings.ofConfig hc
  refine ⟨(hproperty [reports, first] _).1 reports hlast,
    ((hproperty [reports, first] _).2 hother).2, hc, ?_⟩
  rw [← hsame []]
  exact ((hbuild _ []).2.1 _).mpr ⟨_, ⟨10, by decide, by decide⟩, hs, rfl, rfl⟩

end CronTasks
