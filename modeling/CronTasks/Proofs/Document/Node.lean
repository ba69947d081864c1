import CronTasks.Document.Toml.Moment
import CronTasks.Proofs.Table

namespace CronTasks.Document.Node

/-- The table that some keys of a document lead to has a key. A date is no table. -/
inductive HasKey : Node → List String → String → Prop
  | here {ms : List (Option String × Node)} {m : Option String × Node} (h : m ∈ ms) :
    HasKey (.table ms) [] (m.1.getD "")
  | inside {ms : List (Option String × Node)} {m : Option String × Node} {ks : List String}
    {k : String} (h : m ∈ ms) (hm : Toml.isMoment m.2 = false) (hk : HasKey m.2 ks k) :
    HasKey (.table ms) (m.1.getD "" :: ks) k

theorem induction_of_members {p : Node → Prop} (scalar : ∀ s, p (.scalar s))
    (list : ∀ items, p (.list items)) (table : ∀ ms, (∀ m ∈ ms, p m.2) → p (.table ms)) :
    ∀ n, p n
  | .scalar s => scalar s
  | .list items => list items
  | .table ms => table ms fun m hm =>
    have hlt : sizeOf m.2 < sizeOf (Node.table ms) := by
      have hm := List.sizeOf_lt_of_mem hm
      have hn : sizeOf m = 1 + sizeOf m.1 + sizeOf m.2 := rfl
      have ht : sizeOf (Node.table ms) = 1 + sizeOf ms := by simp
      lia
    induction_of_members scalar list table m.2
  termination_by n => sizeOf n
  decreasing_by exact hlt

theorem namedMembers?_cons (m : Option String × Node) (ms : List (Option String × Node)) :
    namedMembers? (.table (m :: ms)) =
      m.1.bind fun k => (namedMembers? (.table ms)).map ((k, m.2) :: ·) := by
  rw [namedMembers?, List.mapM_cons]
  cases m.1 with
  | none => rfl
  | some k => cases h : namedMembers? (.table ms) <;> simp_all [namedMembers?]

theorem hasKey_of_namedMembers? (n : Node) (members : Table String Node)
    (h : n.namedMembers? = some members) (k : String) (hk : k ∈ members.keys) : n.HasKey [] k := by
  cases n with
  | list items => cases h
  | scalar s =>
    have hnil : members = [] := by
      cases hv : s.vacant <;> simp [namedMembers?, hv] at h
      exact h
    exact absurd (hnil ▸ hk) List.not_mem_nil
  | table ms =>
    suffices hm : ∃ n, (some k, n) ∈ ms from
      let ⟨_, hm⟩ := hm
      .here hm
    induction ms generalizing members with
    | nil =>
      cases h
      cases hk
    | cons m ms ih =>
      rw [namedMembers?_cons] at h
      obtain ⟨name, hname, h⟩ := Option.bind_eq_some_iff.mp h
      obtain ⟨rest, hrest, rfl⟩ := Option.map_eq_some_iff.mp h
      obtain rfl | hk := List.mem_cons.mp hk
      · exact ⟨m.2, hname ▸ List.mem_cons_self⟩
      · obtain ⟨n, hm⟩ := ih rest hk hrest
        exact ⟨n, List.mem_cons_of_mem m hm⟩

/-- Leaves out a key of the table that some keys lead to. -/
def without : List String → String → Node → Node
  | [], k, .table ms => .table (ms.filter (·.1 != some k))
  | s :: ks, k, .table ms =>
    .table (ms.map fun m => (m.1, if m.1 = some s then without ks k m.2 else m.2))
  | _, _, n => n

def changed (s : String) (f : Node → Node) (e : String × Node) : String × Node :=
  (e.1, if e.1 = s then f e.2 else e.2)

theorem namedMembers?_without_nil (k : String) (n : Node) :
    (n.without [] k).namedMembers? = n.namedMembers?.map (Table.erase · k) := by
  cases n with
  | scalar s => cases h : s.vacant <;> simp [without, namedMembers?, h, Table.erase]
  | list items => rfl
  | table ms =>
    induction ms with
    | nil => rfl
    | cons m ms ih =>
      simp only [without] at ih ⊢
      obtain ⟨name | name, n⟩ := m
      · rw [List.filter_cons_of_pos rfl, namedMembers?_cons, namedMembers?_cons]
        rfl
      · by_cases hk : name = k
        · rw [List.filter_cons_of_neg (by simp [hk]), ih, namedMembers?_cons]
          simp [hk, Table.erase, Function.comp_def]
        · rw [List.filter_cons_of_pos (by simp [hk]), namedMembers?_cons, ih, namedMembers?_cons]
          simp [hk, Table.erase, Function.comp_def]

theorem namedMembers?_without_cons (s k : String) (ks : List String) (n : Node) :
    (n.without (s :: ks) k).namedMembers? =
      n.namedMembers?.map (List.map (changed s (without ks k))) := by
  cases n with
  | scalar s => cases h : s.vacant <;> simp [without, namedMembers?, h]
  | list items => rfl
  | table ms =>
    induction ms with
    | nil => rfl
    | cons m ms ih =>
      simp only [without] at ih ⊢
      obtain ⟨name | name, n⟩ := m
      · rw [List.map_cons, namedMembers?_cons, namedMembers?_cons]
        rfl
      · rw [List.map_cons, namedMembers?_cons, ih, namedMembers?_cons]
        by_cases hk : name = s <;> simp [changed, hk, Function.comp_def]

theorem fields?_without_nil (form : ListForm) (names : List String) (k : String) (hk : k ∉ names)
    (n : Node) : (n.without [] k).fields? form names = n.fields? form names := by
  have hcount (members : Table String Node) (name : String) (hn : name ∈ names) :
      (members.erase k).countP (·.1 == name) = members.countP (·.1 == name) := by
    rw [Table.erase, List.countP_filter]
    refine List.countP_congr fun e _ => ?_
    simp only [Bool.and_eq_true, beq_iff_eq, bne_iff_ne, and_iff_left_iff_imp]
    exact fun he hek => hk (hek ▸ he ▸ hn)
  have hlookup (members : Table String Node) :
      names.map ((members.erase k).lookup ·) = names.map (members.lookup ·) := by
    refine List.map_congr_left fun name hn => (members.get?_erase name k).trans (if_neg ?_)
    exact fun he => hk (he ▸ hn)
  cases n with
  | list items => rfl
  | scalar s => rfl
  | table ms =>
    have hm := namedMembers?_without_nil k (.table ms)
    simp only [without] at hm ⊢
    simp only [fields?, hm]
    cases namedMembers? (.table ms) with
    | none => rfl
    | some members =>
      simp only [Option.map_some, Option.bind_eq_bind, Option.bind_some, hlookup,
        List.all_eq_true, decide_eq_true_eq]
      exact if_congr (forall₂_congr fun name hn => by rw [hcount members name hn]) rfl rfl

end CronTasks.Document.Node
