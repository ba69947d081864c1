import CronTasks.Table
import Mathlib.Data.List.Nodup

namespace CronTasks.Table

variable {κ α β γ : Type}

/-- Changes the value of every entry, or drops the entry. -/
def revise (f : α → Option β) (t : Table κ α) : Table κ β :=
  t.filterMap fun e => (f e.2).map (e.1, ·)

/-- A pass visits all entries, or it breaks off at the first one whose visit panics. -/
theorem pass_cases (t : Table κ α) (visit : α → Except Payload β) (panics : α → Prop) (f : α → β)
    (payload : Payload) (hok : ∀ e ∈ t, ¬ panics e.2 → visit e.2 = .ok (f e.2))
    (hpanic : ∀ e ∈ t, panics e.2 → visit e.2 = .error payload) :
    ((∀ e ∈ t, ¬ panics e.2) ∧ t.pass visit = (.ok (), t.map fun e => (e.1, f e.2), [])) ∨
      ∃ before e after, t = before ++ e :: after ∧ (∀ x ∈ before, ¬ panics x.2) ∧ panics e.2 ∧
        t.pass visit = (.error payload, before.map fun x => (x.1, f x.2), e :: after) := by
  induction t with
  | nil => exact .inl ⟨fun _ h => absurd h List.not_mem_nil, rfl⟩
  | cons e t ih =>
    by_cases hp : panics e.2
    · refine .inr ⟨[], e, t, rfl, fun _ h => absurd h List.not_mem_nil, hp, ?_⟩
      simp [pass, hpanic e List.mem_cons_self hp]
    · have hv := hok e List.mem_cons_self hp
      obtain ⟨hall, ht⟩ | ⟨before, x, after, rfl, hbefore, hx, ht⟩ :=
        ih (fun x hx => hok x (List.mem_cons_of_mem e hx))
          fun x hx => hpanic x (List.mem_cons_of_mem e hx)
      · exact .inl ⟨List.forall_mem_cons.mpr ⟨hp, hall⟩, by simp [pass, hv, ht]⟩
      · exact .inr ⟨e :: before, x, after, rfl, List.forall_mem_cons.mpr ⟨hp, hbefore⟩, hx,
          by simp [pass, hv, ht]⟩

theorem pass_eq_ok (t : Table κ α) (visit : α → Except Payload β) (done : Table κ β)
    (rest : Table κ α) (h : t.pass visit = (.ok (), done, rest)) :
    rest = [] ∧ ∀ e ∈ done, ∃ a, (e.1, a) ∈ t ∧ visit a = .ok e.2 := by
  induction t generalizing done with
  | nil =>
    cases h
    exact ⟨rfl, fun _ he => absurd he List.not_mem_nil⟩
  | cons x t ih =>
    unfold pass at h
    cases hv : visit x.2 with
    | error p => simp [hv] at h
    | ok b =>
      simp only [hv] at h
      obtain ⟨ha, rfl, hr⟩ : _ ∧ _ ∧ _ := by simpa only [Prod.mk.injEq] using h
      obtain ⟨hrest, hdone⟩ := ih _ (Prod.ext ha (Prod.ext rfl hr))
      refine ⟨hrest, List.forall_mem_cons.mpr ⟨⟨x.2, List.mem_cons_self, hv⟩, fun e he => ?_⟩⟩
      obtain ⟨a, ha, hva⟩ := hdone e he
      exact ⟨a, List.mem_cons_of_mem x ha, hva⟩

theorem mem_keys (t : Table κ α) (k : κ) : k ∈ t.keys ↔ ∃ a, (k, a) ∈ t := by
  simp [keys]

theorem mem_revise (f : α → Option β) (t : Table κ α) (k : κ) (b : β) :
    (k, b) ∈ t.revise f ↔ ∃ a, (k, a) ∈ t ∧ f a = some b := by
  unfold revise
  rw [List.mem_filterMap]
  constructor
  · rintro ⟨⟨j, a⟩, hm, he⟩
    obtain ⟨c, hc, he'⟩ := Option.map_eq_some_iff.mp he
    cases he'
    exact ⟨a, hm, hc⟩
  · rintro ⟨a, hm, hf⟩
    exact ⟨(k, a), hm, by simp [hf]⟩

theorem map_revise_sublist (f : α → Option β) (g : κ × α → γ) (g' : κ × β → γ)
    (hg : ∀ k a b, f a = some b → g' (k, b) = g (k, a)) (t : Table κ α) :
    ((t.revise f).map g').Sublist (t.map g) := by
  induction t with
  | nil => exact List.Sublist.refl _
  | cons e t ih =>
    obtain ⟨k, a⟩ := e
    cases hf : f a with
    | none => simpa [revise, hf] using List.Sublist.cons (g (k, a)) ih
    | some b => simpa [revise, hf, hg k a b hf] using List.Sublist.cons_cons (g (k, a)) ih

theorem keys_revise_sublist (f : α → Option β) (t : Table κ α) :
    (t.revise f).keys.Sublist t.keys :=
  map_revise_sublist f (·.1) (·.1) (fun _ _ _ _ => rfl) t

theorem keys_erase [BEq κ] (t : Table κ α) (k : κ) :
    (t.erase k).keys = t.keys.filter (· != k) := by
  simp only [erase, keys, List.filter_map]
  rfl

theorem nodup_keys_append (t : Table κ α) (hn : t.keys.Nodup) (k : κ) (a : α) (hk : k ∉ t.keys) :
    Table.keys (t ++ [(k, a)]) |>.Nodup := by
  simp only [keys, List.map_append, List.map_cons, List.map_nil]
  exact List.nodup_append_comm.mp (List.nodup_cons.mpr ⟨hk, hn⟩)

/-- Where no two entries share a mark, at most one has a given mark. -/
theorem filter_eq_toList_find? [DecidableEq β] (t : List α) (g : α → β) (hn : (t.map g).Nodup)
    (b : β) : t.filter (g · == b) = (t.find? (g · == b)).toList := by
  induction t with
  | nil => rfl
  | cons a t ih =>
    obtain ⟨ha, ht⟩ := List.nodup_cons.mp hn
    by_cases hb : g a = b
    · have hs : t.filter (g · == b) = [] := List.filter_eq_nil_iff.mpr fun x hx he =>
        ha (List.mem_map.mpr ⟨x, hx, (beq_iff_eq.mp he).trans hb.symm⟩)
      simp [hb, hs]
    · simp [hb, ih ht]

theorem filter_filterMap (t : List α) (g : α → Option β) (p : α → Bool) (q : β → Bool)
    (h : ∀ a ∈ t, ∀ b, g a = some b → q b = p a) :
    (t.filterMap g).filter q = (t.filter p).filterMap g := by
  induction t with
  | nil => rfl
  | cons a t ih =>
    have ih := ih fun a ha => h a (List.mem_cons_of_mem _ ha)
    have ha := h a List.mem_cons_self
    cases hg : g a with
    | none => by_cases hp : p a <;> simp [hg, hp, ih]
    | some b =>
      have hq := ha b hg
      by_cases hp : p a <;> simp [hg, hp, hq, ih]

variable [BEq κ] [LawfulBEq κ]

theorem contains_iff (t : Table κ α) (k : κ) : t.contains k = true ↔ k ∈ t.keys := by
  simp [contains, keys]

theorem contains_eq_false (t : Table κ α) (k : κ) : t.contains k = false ↔ k ∉ t.keys := by
  rw [← contains_iff, Bool.not_eq_true]

theorem put_of_notMem (t : Table κ α) (k : κ) (a : α) (hk : k ∉ t.keys) :
    t.put k a = t ++ [(k, a)] := by
  simp [put, (contains_eq_false t k).mpr hk]

theorem get?_eq_none_iff (t : Table κ α) (k : κ) : t.get? k = none ↔ k ∉ t.keys := by
  simp only [get?, List.lookup_eq_none_iff, keys, List.mem_map, not_exists, not_and,
    bne_iff_ne, ne_eq]
  exact ⟨fun h e hm he => h e hm he.symm, fun h e hm he => h e hm he.symm⟩

theorem mem_of_get?_eq_some (t : Table κ α) (k : κ) (a : α) (h : t.get? k = some a) :
    (k, a) ∈ t := by
  obtain ⟨_, _, rfl, _⟩ := List.lookup_eq_some_iff.mp h
  simp

theorem get?_eq_some_iff (t : Table κ α) (hn : t.keys.Nodup) (k : κ) (a : α) :
    t.get? k = some a ↔ (k, a) ∈ t := by
  refine ⟨mem_of_get?_eq_some t k a, fun hm => ?_⟩
  cases hb : t.get? k with
  | none => exact absurd ((mem_keys t k).mpr ⟨a, hm⟩) ((get?_eq_none_iff t k).mp hb)
  | some b =>
    have he := List.inj_on_of_nodup_map hn (mem_of_get?_eq_some t k b hb) hm rfl
    cases he
    rfl

theorem mem_erase (t : Table κ α) (j k : κ) (a : α) :
    (k, a) ∈ t.erase j ↔ (k, a) ∈ t ∧ k ≠ j := by
  simp [erase]

theorem notMem_keys_erase (t : Table κ α) (k : κ) : k ∉ (t.erase k).keys := by
  simp [keys_erase]

theorem get?_cons (e : κ × α) (t : Table κ α) (k : κ) :
    Table.get? (e :: t) k = if e.1 == k then some e.2 else t.get? k := by
  rw [get?, List.lookup_cons, Bool.beq_comm]
  cases e.1 == k with
  | true => rfl
  | false => rfl

theorem find?_key (t : Table κ α) (k : κ) : t.find? (·.1 == k) = (t.get? k).map (k, ·) := by
  induction t with
  | nil => rfl
  | cons e t ih =>
    rw [List.find?_cons, get?_cons, ih]
    cases he : e.1 == k with
    | true => simp [← beq_iff_eq.mp he]
    | false => rfl

theorem get?_map (t : Table κ α) (f : κ × α → κ × β) (hf : ∀ e, (f e).1 = e.1) (k : κ) :
    Table.get? (t.map f) k = (t.get? k).map fun a => (f (k, a)).2 := by
  induction t with
  | nil => rfl
  | cons e t ih =>
    rw [List.map_cons, get?_cons, get?_cons, ih, hf]
    by_cases he : e.1 = k
    · subst he
      simp
    · simp [he]

theorem get?_put_self (t : Table κ α) (k : κ) (a : α) : (t.put k a).get? k = some a := by
  induction t with
  | nil => simp [put, contains, get?]
  | cons e t ih =>
    by_cases he : e.1 = k
    · simp [put, contains, get?_cons, he]
    · have hput : Table.put (e :: t) k a = e :: Table.put t k a := by
        by_cases hc : t.any (·.1 == k) = true <;> simp [put, contains, he, hc]
      simpa [hput, get?_cons, he] using ih

theorem get?_put (t : Table κ α) [DecidableEq κ] (j k : κ) (a : α) :
    (t.put k a).get? j = if j = k then some a else t.get? j := by
  by_cases hj : j = k
  · rw [if_pos hj, hj, get?_put_self]
  · rw [if_neg hj]
    by_cases hc : t.contains k = true
    · simp only [put, hc, ↓reduceIte]
      rw [get?_map]
      · simp [hj]
      · intro e
        by_cases he : e.1 = k <;> simp [he]
    · have hjk : (j == k) = false := beq_false_of_ne hj
      simp [put, hc, get?, List.lookup_append, List.lookup_cons, hjk]

theorem get?_erase (t : Table κ α) [DecidableEq κ] (j k : κ) :
    (t.erase k).get? j = if j = k then none else t.get? j := by
  induction t with
  | nil => simp [erase, get?]
  | cons e t ih =>
    by_cases he : e.1 = k
    · have hk : Table.erase (e :: t) k = Table.erase t k := by simp [erase, he]
      rw [hk, ih, get?_cons]
      by_cases hj : j = k
      · simp [hj]
      · simp [hj, he, Ne.symm hj]
    · have hk : Table.erase (e :: t) k = e :: Table.erase t k := by simp [erase, he]
      rw [hk, get?_cons, get?_cons, ih]
      by_cases hj : j = k
      · simp [hj, he]
      · simp [hj]

theorem nodup_keys_put (t : Table κ α) (hn : t.keys.Nodup) (k : κ) (a : α) :
    (t.put k a).keys.Nodup := by
  by_cases hk : k ∈ t.keys
  · have hkeys : (t.put k a).keys = t.keys := by
      simp only [put, (contains_iff t k).mpr hk, ↓reduceIte, keys, List.map_map]
      apply List.map_congr_left
      intro e _
      by_cases he : e.1 = k <;> simp [he]
    rwa [hkeys]
  · rw [put_of_notMem t k a hk]
    exact nodup_keys_append t hn k a hk

theorem erase_of_notMem (t : Table κ α) (k : κ) (hk : k ∉ t.keys) : t.erase k = t := by
  refine List.filter_eq_self.mpr fun e he => bne_iff_ne.mpr ?_
  rintro rfl
  exact hk ((mem_keys t e.1).mpr ⟨e.2, he⟩)

/-- Taking an entry out and putting one in its place only reorders the rest. -/
theorem perm_cons_erase (t : Table κ α) (hn : t.keys.Nodup) (k : κ) (a : α) (hm : (k, a) ∈ t) :
    t.Perm ((k, a) :: t.erase k) := by
  induction t with
  | nil => cases hm
  | cons e t ih =>
    obtain ⟨hk, ht⟩ := List.nodup_cons.mp hn
    obtain he | hm := List.mem_cons.mp hm
    · subst he
      have he : Table.erase ((k, a) :: t) k = Table.erase t k := by simp [erase]
      rw [he, erase_of_notMem t k hk]
    · have hne : e.1 ≠ k := by
        rintro rfl
        exact hk ((mem_keys t e.1).mpr ⟨a, hm⟩)
      have he : Table.erase (e :: t) k = e :: Table.erase t k := by simp [erase, hne]
      rw [he]
      exact ((ih ht hm).cons e).trans (List.Perm.swap _ _ _)

end CronTasks.Table
