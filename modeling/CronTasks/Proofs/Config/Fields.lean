import CronTasks.Config.Decode
import CronTasks.Config.Diagnosis
import CronTasks.Proofs.Document.Node

namespace CronTasks

open Document Text

/-- The fields of a configuration: the keys that lead to the table of each, and its own key. -/
def Config.fields : List (List String × String) :=
  [([], "client"), ([], "trigger"), (["trigger"], "scheduler_name"), (["trigger"], "thread_count"),
   (["trigger"], "timezone"), (["trigger"], "properties"), ([], "runner"), (["runner"], "timezone"),
   ([], "logging"), (["logging"], "level"), (["logging"], "json")]

/-- Keys that lead to a table with fields, by way of such tables. -/
def Config.LeadsToFields (ks : List String) : Prop := ∀ q, q <+: ks → q ∈ Config.fields.map (·.1)

def pathTo (ks : List String) : String := ks.foldl pathBelow ""

/-- A key of the whole document that is the path of a field. -/
def Config.Masked (ks : List String) (k : String) : Prop :=
  ks = [] ∧ ∃ f ∈ Config.fields, f.1 ≠ [] ∧ k = pathBelow (pathTo f.1) f.2

theorem knownFields_eq : knownFields = Config.fields.map fun f => pathBelow (pathTo f.1) f.2 := by
  decide

theorem pathBelow_empty (key : String) : pathBelow "" key = key :=
  if_pos rfl

theorem pathTo_append (ks : List String) (k : String) :
    pathTo (ks ++ [k]) = pathBelow (pathTo ks) k :=
  List.foldl_append

theorem pathBelow_mem_knownFields_iff (parent key : String) (hp : parent ≠ "") :
    pathBelow parent key ∈ knownFields ↔ key ∈ knownFields.filterMap fun field =>
      ((parent ++ ".").toList.isPrefixOf? field.toList).map String.ofList := by
  rw [List.mem_filterMap]
  constructor
  · intro h
    refine ⟨_, h, ?_⟩
    have hstripped : (parent ++ ".").toList.isPrefixOf? (pathBelow parent key).toList =
        some key.toList := by
      simp [List.isPrefixOf?_eq_some_iff_append_eq, pathBelow, hp]
    rw [hstripped, Option.map_some, String.ofList_toList]
  · rintro ⟨field, hf, hkey⟩
    obtain ⟨cs, hcs, rfl⟩ := Option.map_eq_some_iff.mp hkey
    have hfield : pathBelow parent (String.ofList cs) = field := by
      rw [List.isPrefixOf?_eq_some_iff_append_eq] at hcs
      rw [pathBelow, if_neg hp, ← String.toList_inj, String.toList_append, String.toList_ofList, hcs]
    exact hfield ▸ hf

theorem Config.eq_nil_or_section : ∀ ks ∈ Config.fields.map (·.1),
    ks = [] ∨ ∃ s ∈ ["trigger", "runner", "logging"], ks = [s] := by
  decide

theorem Config.fields_below : ∀ s ∈ ["trigger", "runner", "logging"],
    (knownFields.filterMap fun field =>
      ((s ++ ".").toList.isPrefixOf? field.toList).map String.ofList) =
        (Config.fields.filter (·.1 == [s])).map (·.2) := by
  decide

/-- A path tells a field by its table and its key, but for keys of the whole document. -/
theorem Config.path_mem_knownFields_iff (ks : List String) (k : String)
    (h : ks ∈ Config.fields.map (·.1)) :
    pathBelow (pathTo ks) k ∈ knownFields ↔ (ks, k) ∈ Config.fields ∨ Config.Masked ks k := by
  obtain rfl | ⟨s, hs, rfl⟩ := Config.eq_nil_or_section ks h
  · have hpath (key : String) : pathBelow (pathTo []) key = key := pathBelow_empty key
    rw [hpath, knownFields_eq, List.mem_map]
    -- a key of the whole document is compared with all paths, also with those of other tables
    constructor
    · rintro ⟨⟨ks, key⟩, hf, rfl⟩
      by_cases hks : ks = []
      · subst hks
        exact .inl ((hpath key).symm ▸ hf)
      · exact .inr ⟨rfl, _, hf, hks, rfl⟩
    · rintro (hf | ⟨-, f, hf, -, rfl⟩)
      · exact ⟨_, hf, hpath k⟩
      · exact ⟨f, hf, rfl⟩
  · have hs' : s ≠ "" := by
      rintro rfl
      exact absurd hs (by decide)
    have hm : ¬ Config.Masked [s] k := fun h => absurd h.1 (List.cons_ne_nil s [])
    have hpath : pathTo [s] = s := pathBelow_empty s
    rw [or_iff_left hm, hpath, pathBelow_mem_knownFields_iff s k hs', Config.fields_below s hs]
    simp

def Searched (ks : List String) : Prop := pathTo ks ∈ knownFields ∧ pathTo ks ∉ freeForm

def strayKey (ks : List String) (k : String) : Finding :=
  .unknownField (pathBelow (pathTo ks) k) (closest? k (fieldsBelow (pathTo ks)))

def unknownMember (parent : String) (m : Option String × Node) : List Finding :=
  let path := pathBelow parent (m.1.getD "")
  if path ∉ knownFields then
    [.unknownField path (closest? (m.1.getD "") (fieldsBelow parent))]
  else if path ∈ freeForm ∨ Toml.isMoment m.2 = true then []
  else unknownFields path m.2

theorem unknownMembers_eq (parent : String) (ms : List (Option String × Node)) :
    unknownMembers parent ms = ms.map fun m => (m.1.getD "", unknownMember parent m) := by
  induction ms with
  | nil => rfl
  | cons m ms ih =>
    rw [unknownMembers, ih]
    simp [unknownMember]

theorem mem_unknownFields_table (parent : String) (ms : List (Option String × Node)) (d : Finding) :
    d ∈ unknownFields parent (.table ms) ↔ ∃ m ∈ ms, d ∈ unknownMember parent m := by
  rw [unknownFields, List.mem_flatMap]
  simp only [List.mem_mergeSort, unknownMembers_eq]
  simp

theorem mem_unknownMember (ks : List String) (m : Option String × Node) (d : Finding) :
    d ∈ unknownMember (pathTo ks) m ↔
      (pathTo (ks ++ [m.1.getD ""]) ∉ knownFields ∧ d = strayKey ks (m.1.getD "")) ∨
        Searched (ks ++ [m.1.getD ""]) ∧ Toml.isMoment m.2 = false ∧
          d ∈ unknownFields (pathTo (ks ++ [m.1.getD ""])) m.2 := by
  rw [unknownMember, strayKey, Searched, ← pathTo_append]
  by_cases hk : pathTo (ks ++ [m.1.getD ""]) ∈ knownFields
  · by_cases hf : pathTo (ks ++ [m.1.getD ""]) ∈ freeForm <;>
      cases hm : Toml.isMoment m.2 <;> simp [hk, hf]
  · simp [hk]

theorem searched_cons_iff (ks : List String) (key : String) (rest : List String) :
    (∀ q, q <+: key :: rest → q ≠ [] → Searched (ks ++ q)) ↔
      Searched (ks ++ [key]) ∧ ∀ q, q <+: rest → q ≠ [] → Searched (ks ++ [key] ++ q) := by
  constructor
  · refine fun h => ⟨h [key] (List.prefix_cons_iff.mpr (.inr ⟨[], rfl, List.nil_prefix⟩)) (by simp),
      fun q hq _ => ?_⟩
    simpa using h (key :: q) (List.prefix_cons_iff.mpr (.inr ⟨q, rfl, hq⟩)) (by simp)
  · rintro ⟨hkey, h⟩ q hq hne
    obtain rfl | ⟨t, rfl, ht⟩ := List.prefix_cons_iff.mp hq
    · exact absurd rfl hne
    · by_cases hnil : t = []
      · exact hnil ▸ hkey
      · simpa using h t ht hnil

theorem mem_unknownFields_iff (ks : List String) (n : Node) (d : Finding) :
    d ∈ unknownFields (pathTo ks) n ↔ ∃ rest k, n.HasKey rest k ∧
      (∀ q, q <+: rest → q ≠ [] → Searched (ks ++ q)) ∧
      pathTo (ks ++ rest ++ [k]) ∉ knownFields ∧ d = strayKey (ks ++ rest) k := by
  -- over the document, with the keys that lead to the part of it
  induction n using Node.induction_of_members generalizing ks with
  | scalar s =>
    refine iff_of_false List.not_mem_nil ?_
    rintro ⟨_, _, h, -⟩
    cases h
  | list items =>
    refine iff_of_false List.not_mem_nil ?_
    rintro ⟨_, _, h, -⟩
    cases h
  | table ms ih =>
    rw [mem_unknownFields_table]
    constructor
    · rintro ⟨m, hm, hd⟩
      obtain ⟨hk, rfl⟩ | ⟨hs, hmoment, hd⟩ := (mem_unknownMember ks m d).mp hd
      · refine ⟨[], _, .here hm, ?_, by simpa using hk, by simp⟩
        rintro q hq hne
        exact absurd (List.prefix_nil.mp hq) hne
      · obtain ⟨rest, k, hkey, hsearched, hk, rfl⟩ := (ih m hm _).mp hd
        refine ⟨_, k, .inside hm hmoment hkey, ?_, by simpa using hk, by simp⟩
        exact (searched_cons_iff ks _ rest).mpr ⟨hs, hsearched⟩
    · rintro ⟨rest, k, hkey, hsearched, hk, rfl⟩
      cases hkey with
      | here hm =>
        refine ⟨_, hm, (mem_unknownMember ks _ _).mpr (.inl ⟨by simpa using hk, by simp⟩)⟩
      | inside hm hmoment hkey =>
        obtain ⟨hs, hsearched⟩ := (searched_cons_iff ks _ _).mp hsearched
        refine ⟨_, hm, (mem_unknownMember ks _ _).mpr (.inr ⟨hs, hmoment, ?_⟩)⟩
        exact (ih _ hm _).mpr ⟨_, k, hkey, hsearched, by simpa using hk, by simp⟩

theorem mem_unknownFields_root_iff (n : Node) (d : Finding) :
    d ∈ unknownFields "" n ↔ ∃ ks k, n.HasKey ks k ∧ (∀ q, q <+: ks → q ≠ [] → Searched q) ∧
      pathTo (ks ++ [k]) ∉ knownFields ∧ d = strayKey ks k :=
  mem_unknownFields_iff [] n d

theorem Config.LeadsToFields.searched {ks : List String} (h : Config.LeadsToFields ks) :
    ∀ q, q <+: ks → q ≠ [] → Searched q := by
  have hall : ∀ q ∈ Config.fields.map (·.1), q ≠ [] →
      pathTo q ∈ knownFields ∧ pathTo q ∉ freeForm := by decide
  exact fun q hq hne => hall q (h q hq) hne

theorem Document.Node.exists_finding_iff (n : Node) (ks : List String) (k : String)
    (hkey : n.HasKey ks k) (hks : Config.LeadsToFields ks) :
    (∃ d ∈ unknownFields "" n, d.path = pathTo (ks ++ [k])) ↔
      (ks, k) ∉ Config.fields ∧ ¬ Config.Masked ks k := by
  rw [← not_or, ← Config.path_mem_knownFields_iff ks k (hks ks (List.prefix_refl ks)),
    ← pathTo_append]
  constructor
  · rintro ⟨d, hd, hpath⟩
    obtain ⟨ks', k', -, -, hk, rfl⟩ := (mem_unknownFields_root_iff n d).mp hd
    rwa [← hpath, strayKey, Finding.path, ← pathTo_append]
  · intro hk
    exact ⟨_, (mem_unknownFields_root_iff n _).mpr ⟨ks, k, hkey, hks.searched, hk, rfl⟩,
      (pathTo_append ks k).symm⟩

namespace Config

theorem decodeField_changed {α : Type} (read : Node → Option α) (default : α) (s : String)
    (g : Node → Node) (members : Table String Node) (name : String)
    (h : name = s → ∀ n, read (g n) = read n) :
    decodeField read default ((members.map (Node.changed s g)).lookup name) =
      decodeField read default (members.lookup name) := by
  have hlookup := members.get?_map (Node.changed s g) (fun _ => rfl) name
  rw [Table.get?] at hlookup
  rw [hlookup, Table.get?]
  cases members.lookup name with
  | none => rfl
  | some n =>
    by_cases hn : name = s
    · simp [decodeField, Node.changed, hn, h hn]
    · simp [decodeField, Node.changed, hn]

theorem ofNode?_without_cons (f : Format) (s k : String) (ks : List String)
    (hclient : "client" = s → ∀ n,
      ClientType.ofNode? f (n.without ks k) = ClientType.ofNode? f n)
    (htrigger : "trigger" = s → ∀ n,
      TriggerConfig.ofNode? f (n.without ks k) = TriggerConfig.ofNode? f n)
    (hrunner : "runner" = s → ∀ n,
      RunnerConfig.ofNode? f (n.without ks k) = RunnerConfig.ofNode? f n)
    (hlogging : "logging" = s → ∀ n,
      LoggingConfig.ofNode? f (n.without ks k) = LoggingConfig.ofNode? f n)
    (n : Node) : ofNode? f (n.without (s :: ks) k) = ofNode? f n := by
  cases n with
  | scalar s => rfl
  | list items => rfl
  | table ms =>
    have hm := Node.namedMembers?_without_cons s k ks (.table ms)
    simp only [Node.without] at hm ⊢
    simp only [ofNode?, Node.fields?, hm]
    cases Node.namedMembers? (.table ms) with
    | none => rfl
    | some members =>
      have hcount (name : String) : (members.map (Node.changed s (Node.without ks k))).countP
          (·.1 == name) = members.countP (·.1 == name) := List.countP_map
      simp only [Option.map_some, Option.bind_eq_bind, Option.bind_some, hcount, List.map_cons,
        List.map_nil]
      split
      · simp only [Option.bind_some, decodeField_changed _ _ _ _ _ _ hclient,
          decodeField_changed _ _ _ _ _ _ htrigger, decodeField_changed _ _ _ _ _ _ hrunner,
          decodeField_changed _ _ _ _ _ _ hlogging]
      · rfl

theorem ofNode?_without_nil (f : Format) (k : String) (hk : ([], k) ∉ fields) (n : Node) :
    ofNode? f (n.without [] k) = ofNode? f n := by
  have hnames : k ∉ ["client", "trigger", "runner", "logging"] := by simpa [fields] using hk
  unfold ofNode?
  rw [Node.fields?_without_nil _ _ k hnames]

/-- A key without which the same is read from every document. -/
def Ignored (ks : List String) (k : String) : Prop :=
  ∀ n, ofNode? .toml (n.without ks k) = ofNode? .toml n

def misfit (ks : List String) (k : String) : Node :=
  ks.foldr (fun s n => .table [(some s, n)]) (.table [(some k, .scalar .unreadable)])

theorem ofNode?_misfit : ∀ f ∈ fields, (ofNode? .toml (misfit f.1 f.2)).isNone ∧
    (ofNode? .toml ((misfit f.1 f.2).without f.1 f.2)).isSome := by
  decide

theorem ignored_iff (ks : List String) (k : String) (h : ks ∈ fields.map (·.1)) :
    Ignored ks k ↔ (ks, k) ∉ fields := by
  constructor
  · intro hi hf
    obtain ⟨hnone, hsome⟩ := ofNode?_misfit (ks, k) hf
    rw [hi, Option.isSome_iff_ne_none] at hsome
    exact hsome (Option.isNone_iff_eq_none.mp hnone)
  · intro hk n
    obtain rfl | ⟨s, hs, rfl⟩ := eq_nil_or_section ks h
    · exact ofNode?_without_nil .toml k hk n
    · refine ofNode?_without_cons .toml s k [] ?_ ?_ ?_ ?_ n
      · rintro rfl
        exact absurd hs (by decide)
      · rintro rfl n
        have hnames : k ∉ ["scheduler_name", "thread_count", "timezone", "properties"] := by
          simpa [fields] using hk
        simp only [TriggerConfig.ofNode?, Node.fields?_without_nil _ _ k hnames]
      · rintro rfl n
        have hnames : k ∉ ["timezone"] := by simpa [fields] using hk
        simp only [RunnerConfig.ofNode?, Node.fields?_without_nil _ _ k hnames]
      · rintro rfl n
        have hnames : k ∉ ["level", "json"] := by simpa [fields] using hk
        simp only [LoggingConfig.ofNode?, Node.fields?_without_nil _ _ k hnames]

end Config

/-- A key of a table with fields is found exactly if it is no field, unless it is a key of the whole
document that looks like the path of a field. What is found belongs to such keys, and nothing is
found among properties. Where nothing is found no key is ignored. -/
theorem unknown_fields_are_found (n : Node) :
    (∀ ks k, n.HasKey ks k → Config.LeadsToFields ks →
      ((∃ d ∈ unknownFields "" n, d.path = pathTo (ks ++ [k])) ↔
        (ks, k) ∉ Config.fields ∧ ¬ Config.Masked ks k)) ∧
    (∀ d ∈ unknownFields "" n, ∃ ks k, n.HasKey ks k ∧ (ks, k) ∉ Config.fields ∧
      ¬ ["trigger", "properties"] <+: ks ∧ d = strayKey ks k) ∧
    (unknownFields "" n = [] → (∀ k, n.HasKey [] k → ¬ Config.Masked [] k) →
      ∀ ks k, n.HasKey ks k → Config.LeadsToFields ks →
        (ks, k) ∈ Config.fields ∧ ¬ Config.Ignored ks k) := by
  refine ⟨n.exists_finding_iff, fun d hd => ?_, fun hnone hmasked ks k hkey hks => ?_⟩
  · obtain ⟨ks, k, hkey, hs, hk, rfl⟩ := (mem_unknownFields_root_iff n d).mp hd
    refine ⟨ks, k, hkey, fun hf => ?_, fun hp => ?_, rfl⟩
    · rw [knownFields_eq, pathTo_append] at hk
      exact hk (List.mem_map.mpr ⟨_, hf, rfl⟩)
    · exact (hs _ hp (by simp)).2 (by decide)
  · have hplain : ¬ Config.Masked ks k := by
      intro hm
      obtain rfl := hm.1
      exact hmasked k hkey hm
    have hfield : (ks, k) ∈ Config.fields := by
      by_contra hf
      obtain ⟨d, hd, -⟩ := (n.exists_finding_iff ks k hkey hks).mpr ⟨hf, hplain⟩
      exact absurd (hnone ▸ hd) List.not_mem_nil
    refine ⟨hfield, fun hi => ?_⟩
    exact (Config.ignored_iff ks k (hks ks (List.prefix_refl ks))).mp hi hfield

theorem pointed_key_is_found :
    let n : Node := .table [(some "trigger", .table [(some "thread.count", .scalar (.ofCount 4))])]
    n.HasKey ["trigger"] "thread.count" ∧ Config.LeadsToFields ["trigger"] ∧
      ∃ d ∈ unknownFields "" n, d.path = "trigger.thread.count" := by
  intro n
  have hkey : n.HasKey ["trigger"] "thread.count" :=
    .inside (List.mem_singleton_self _) rfl (.here (List.mem_singleton_self _))
  have hleads : Config.LeadsToFields ["trigger"] := by
    intro q hq
    obtain rfl | ⟨t, rfl, ht⟩ := List.prefix_cons_iff.mp hq
    · decide
    · rw [List.prefix_nil.mp ht]
      decide
  have hmasked : ¬ Config.Masked ["trigger"] "thread.count" := fun h =>
    absurd h.1 (List.cons_ne_nil _ _)
  obtain ⟨d, hd, hp⟩ :=
    ((unknown_fields_are_found n).1 _ _ hkey hleads).mpr ⟨by decide, hmasked⟩
  exact ⟨hkey, hleads, d, hd, hp.trans (by decide)⟩

/-- A quoted key in the place of a path: nothing is found, and the number of threads is not read. -/
theorem quoted_path_is_overlooked :
    let s := "\"trigger.thread_count\" = 4\n"
    ∃ n, soundToml? s = some n ∧ n.HasKey [] "trigger.thread_count" ∧ Config.LeadsToFields [] ∧
      ([], "trigger.thread_count") ∉ Config.fields ∧ tomlFindings s = [] ∧
      unknownFields "" n = [] ∧ Config.Ignored [] "trigger.thread_count" ∧
      (Config.ofNode? .toml n).map (·.trigger.threadCount) = some 10 := by
  intro s
  have hleads : Config.LeadsToFields [] := by
    intro q hq
    rw [List.prefix_nil.mp hq]
    decide
  have hfield : ([], "trigger.thread_count") ∉ Config.fields := by decide
  have hread : (soundToml? s).any (fun n =>
      n.namedMembers?.map Table.keys = some ["trigger.thread_count"] ∧ unknownFields "" n = [] ∧
        (Config.ofNode? .toml n).map (·.trigger.threadCount) = some 10) = true := by
    decide +kernel
  have hfindings : tomlFindings s = [] := by decide +kernel
  cases hn : soundToml? s with
  | none => simp [hn] at hread
  | some n =>
    rw [hn, Option.any_some] at hread
    obtain ⟨hkeys, hnone, hcount⟩ := of_decide_eq_true hread
    obtain ⟨members, hm, hkeys⟩ := Option.map_eq_some_iff.mp hkeys
    have hkey := n.hasKey_of_namedMembers? members hm "trigger.thread_count"
      (hkeys ▸ List.mem_singleton_self _)
    have hignored := (Config.ignored_iff [] _ (hleads [] List.nil_prefix)).mpr hfield
    exact ⟨n, rfl, hkey, hleads, hfield, hfindings, hnone, hignored, hcount⟩

end CronTasks
