import CronTasks.Methods
import CronTasks.Proofs.Table
import CronTasks.Text.Blank

namespace CronTasks

def Journal.nextNumber (j : Journal) (type : String) : Nat := j.counter (buildName type) + 1

/-- A method of a registry on an instance that fits it. -/
structure BoundMethod.Registered (r : Registry) (b : BoundMethod) : Prop where
  method_eq : r.method b.method.type b.method.name = .ok b.method
  receiver_eq : b.target.receiver = b.method.receiver

theorem BoundMethod.Registered.call {r : Registry} {b : BoundMethod} (h : b.Registered r)
    (journal : Journal) : ∃ run, b.call journal =
      (b.method.behavior run,
        journal ++ [.called b.method.type b.method.name b.target.number run]) :=
  ⟨_, if_pos h.receiver_eq⟩

namespace Registry

/-- Names with something to see in them, under which a method is registered. -/
structure Resolves (r : Registry) (type name : String) : Prop where
  type_shows : Text.blank type = false
  name_shows : Text.blank name = false
  hasMethod : r.hasMethod type name = true

def construction (r : Registry) (type : String) (journal : Journal) : Option Outcome :=
  (r.get? type).map fun entry => (entry.construct (journal.nextNumber type)).alone

theorem method_eq_ok (r : Registry) (type name : String) (m : Method)
    (h : r.method type name = .ok m) :
    m.type = type ∧ m.name = name ∧ ∃ entry, r.get? type = some entry ∧
      m.receiver = entry.receiver ∧ entry.methods.get? name = some m.behavior := by
  unfold method at h
  cases he : r.get? type with
  | none =>
    rw [he] at h
    cases h
  | some entry =>
    simp only [he] at h
    cases hb : entry.methods.get? name with
    | none =>
      rw [hb] at h
      cases h
    | some behavior =>
      rw [hb] at h
      cases h
      exact ⟨rfl, rfl, entry, rfl, rfl, hb⟩

theorem hasType_of_hasMethod (r : Registry) (type name : String)
    (h : r.hasMethod type name = true) : r.hasType type = true := by
  unfold hasMethod at h
  rw [hasType, Table.contains_iff]
  by_contra hn
  rw [(Table.get?_eq_none_iff r type).mpr hn] at h
  cases h

theorem exists_method (r : Registry) (type name : String) (h : r.hasMethod type name = true) :
    ∃ m, r.method type name = .ok m := by
  unfold hasMethod at h
  unfold method
  cases he : r.get? type with
  | none => simp [he] at h
  | some entry =>
    rw [he, Option.any_some, Table.contains_iff] at h
    cases hb : entry.methods.get? name with
    | none => exact absurd h ((Table.get?_eq_none_iff _ _).mp hb)
    | some behavior => simp only [hb, Except.ok.injEq, exists_eq']

theorem resolve_of_not_hasMethod (r : Registry) (type name : String) (journal : Journal)
    (h : r.hasMethod type name = false) :
    ∃ err, (err = .unknownType type ∨ err = .unknownMethod type name) ∧
      r.resolve type name journal = (.error (.error err), journal) := by
  have hres (err : ResolveError) (hm : r.method type name = .error err) :
      r.resolve type name journal = (.error (.error err), journal) := by
    simp only [resolve, prepare, hm, bind, Except.bind]
  unfold hasMethod at h
  cases he : r.get? type with
  | none => exact ⟨_, .inl rfl, hres _ (by simp only [method, he])⟩
  | some entry =>
    rw [he, Option.any_some, Table.contains_eq_false] at h
    have hn := (Table.get?_eq_none_iff _ _).mpr h
    exact ⟨_, .inr rfl, hres _ (by simp only [method, he, hn])⟩

/-- A method that is registered is to be called on the next instance of its type. -/
theorem prepare_of_hasMethod (r : Registry) (type name : String) (journal : Journal)
    (h : r.hasMethod type name = true) :
    ∃ entry b, r.get? type = some entry ∧ b.Registered r ∧ b.method.type = type ∧
      b.method.name = name ∧ b.target.type = type ∧ b.target.number = journal.nextNumber type ∧
      r.prepare type name journal = .ok (b, entry.construct (journal.nextNumber type)) := by
  obtain ⟨m, hm⟩ := r.exists_method type name h
  obtain ⟨htype, hname, entry, he, hr, -⟩ := r.method_eq_ok type name m hm
  let i : Instance := ⟨type, journal.nextNumber type, entry.receiver⟩
  have hb : BoundMethod.Registered r ⟨i, m⟩ := ⟨by rw [htype, hname, hm], hr.symm⟩
  refine ⟨entry, ⟨i, m⟩, he, hb, htype, hname, rfl, rfl, ?_⟩
  simp only [prepare, hm, next, he]
  rfl

theorem resolve_of_hasMethod (r : Registry) (type name : String) (journal : Journal)
    (h : r.hasMethod type name = true) :
    ∃ entry b, r.get? type = some entry ∧
      b.Registered r ∧ b.method.type = type ∧ b.method.name = name ∧
      r.resolve type name journal =
        (built type b (entry.construct (journal.nextNumber type)).alone,
          journal ++ [.built type (journal.nextNumber type)]) := by
  obtain ⟨entry, b, he, hb, htype, hname, -, hnumber, hp⟩ :=
    r.prepare_of_hasMethod type name journal h
  exact ⟨entry, b, he, hb, htype, hname, by simp only [resolve, hp, hnumber]⟩

end Registry

namespace Construction

variable {σ τ : Type} (ask : JobKey → σ → Option (Except (Raised RepositoryError) Unit) × σ)

/-- What a run changes is what its questions change: one after the other as long as they are answered,
and in the end perhaps one that is not. -/
theorem run_within (Done Hung : σ → σ → Prop) [Std.Refl Done] [IsTrans σ Done]
    (hhung : ∀ s t u, Done s t → Hung t u → Hung s u)
    (hask : ∀ key s, match ask key s with
      | (some _, t) => Done s t
      | (none, t) => Hung s t) (c : Construction) (s : σ) :
    match c.run ask s with
    | (some _, t) => Done s t
    | (none, t) => Hung s t := by
  induction c generalizing s with
  | done o => exact Std.Refl.refl s
  | ask key next ih =>
    have hkey := hask key s
    rw [run]
    cases hx : ask key s with
    | mk answer t =>
      rw [hx] at hkey
      cases answer with
      | none => exact hkey
      | some answer =>
        have hnext := ih (some answer) t
        dsimp only at hkey hnext ⊢
        cases hy : (next (some answer)).run ask t with
        | mk o u =>
          rw [hy] at hnext
          cases o with
          | none => exact hhung s t u hkey hnext
          | some o => exact IsTrans.trans s t u hkey hnext

theorem run_preserves (Kept : σ → σ → Prop) [Std.Refl Kept] [IsTrans σ Kept]
    (hask : ∀ key s, Kept s (ask key s).2) (c : Construction) (s : σ) : Kept s (c.run ask s).2 := by
  have hrun := c.run_within ask Kept Kept (fun _ _ _ => IsTrans.trans _ _ _)
    (fun key s => ?_) s
  · split at hrun
    next hx => rwa [hx]
    next hx => rwa [hx]
  · have hkey := hask key s
    split
    next hx => rwa [hx] at hkey
    next hx => rwa [hx] at hkey

/-- Questions that are answered alike from more of a state, and change it alike, lead to the same. -/
theorem run_lift (ask' : JobKey → τ → Option (Except (Raised RepositoryError) Unit) × τ)
    (part : τ → σ) (Good : τ → Prop) (hgood : ∀ key t, Good t → Good (ask' key t).2)
    (h : ∀ key t, Good t → ask key (part t) = ((ask' key t).1, part (ask' key t).2))
    (c : Construction) (t : τ) (ht : Good t) :
    c.run ask (part t) = ((c.run ask' t).1, part (c.run ask' t).2) := by
  induction c generalizing t with
  | done o => rfl
  | ask key next ih =>
    have hnext := hgood key t ht
    rw [run, run, h key t ht]
    cases hx : ask' key t with
    | mk answer u =>
      rw [hx] at hnext
      cases answer with
      | none => rfl
      | some answer => exact ih (some answer) u hnext

end Construction

end CronTasks
