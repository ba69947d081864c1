import CronTasks.Listeners
import CronTasks.Proofs.Sorting
import Mathlib.Data.Prod.Lex
import Mathlib.Order.Basic
import Mathlib.Data.Int.Order.Basic
import Mathlib.Data.List.Induction
import Mathlib.Data.List.TakeWhile

namespace CronTasks

namespace Addition

variable {α : Type}

/-- The order of an addition, where one without an order comes after all that have one. -/
def rank (a : Addition α) : Bool ×ₗ Int := toLex (a.order.isNone, a.order.getD 0)

/-- What decides the place of an addition: its rank, and then its number. -/
def key (a : Addition α) : (Bool ×ₗ Int) ×ₗ Nat := toLex (a.rank, a.number)

theorem precedes_iff (a b : Addition α) : a.precedes b = true ↔ a.key ≤ b.key := by
  obtain ⟨o, m, l⟩ := a
  obtain ⟨p, n, k⟩ := b
  cases o <;> cases p <;>
    simp [precedes, key, rank, Prod.Lex.toLex_le_toLex, Prod.Lex.toLex_lt_toLex]

theorem number_eq_of_key_eq (a b : Addition α) (h : a.key = b.key) : a.number = b.number :=
  congrArg (fun k => (ofLex k).2) h

def inOrder (a b : Addition α) : Bool := a.rank ≤ b.rank

theorem mergeSort_inOrder (as : List (Addition α)) : as.mergeSort inOrder = sortedBy rank as := rfl

theorem key_lt_of_rank_le (a b : Addition α) (h : a.rank ≤ b.rank) (hn : a.number < b.number) :
    a.key < b.key := by
  rw [key, key, Prod.Lex.toLex_lt_toLex]
  exact h.lt_or_eq.imp_right fun hr => ⟨hr, hn⟩

theorem key_lt_of_rank_lt (a b : Addition α) (h : a.rank < b.rank) : a.key < b.key := by
  rw [key, key, Prod.Lex.toLex_lt_toLex]
  exact .inl h

/-- A stable sort by ranks is a sort by keys where additions stand as they were made. -/
theorem pairwise_key_mergeSort (as : List (Addition α)) (h : as.Pairwise (·.number < ·.number)) :
    (as.mergeSort inOrder).Pairwise (·.key < ·.key) := by
  simp only [mergeSort_inOrder]
  induction as with
  | nil => simp [sortedBy]
  | cons a as ih =>
    obtain ⟨ha, has⟩ := List.pairwise_cons.mp h
    obtain ⟨before, after, hsort, hrest, hbefore, hafter⟩ := sortedBy_cons rank a as
    have hpair := ih has
    rw [hrest, List.pairwise_append] at hpair
    have hlt : ∀ b ∈ before, b.key < a.key := fun b hb => b.key_lt_of_rank_lt a (hbefore b hb)
    have hgt : ∀ b ∈ after, a.key < b.key := by
      intro b hb
      have hm : b ∈ sortedBy rank as := hrest ▸ List.mem_append_right before hb
      exact a.key_lt_of_rank_le b (hafter b hb) (ha b (List.mem_mergeSort.mp hm))
    rw [hsort, List.pairwise_append, List.pairwise_cons]
    refine ⟨hpair.1, ⟨hgt, hpair.2.1⟩, fun b hb c hc => ?_⟩
    obtain rfl | hc := List.mem_cons.mp hc
    · exact hlt b hb
    · exact hpair.2.2 b hb c hc

/-- A place in a list up to which no key is higher than a given one, while all behind it are. A
search by halves finds such a place if there is one. -/
def Parts (as : List (Addition α)) (new : Addition α) (i : Nat) : Prop :=
  i ≤ as.length ∧ (∀ a ∈ as.take i, a.key ≤ new.key) ∧ ∀ a ∈ as.drop i, new.key < a.key

theorem parts_append_iff (before after : List (Addition α)) (new : Addition α)
    (hle : ∀ a ∈ before, a.key ≤ new.key) (hlt : ∀ a ∈ after, new.key < a.key) (i : Nat) :
    Parts (before ++ after) new i ↔ i = before.length := by
  constructor
  · rintro ⟨hi, htake, hdrop⟩
    obtain h | rfl | h := lt_trichotomy i before.length
    · have hm : before[i] ∈ (before ++ after).drop i := by
        rw [List.drop_append_of_le_length h.le, List.drop_eq_getElem_cons h]
        exact List.mem_cons_self
      exact absurd (hdrop _ hm) (hle _ (List.getElem_mem h)).not_gt
    · rfl
    · obtain ⟨a, rest, rfl⟩ : ∃ a rest, after = a :: rest := by
        refine List.exists_cons_of_ne_nil ?_
        rintro rfl
        simp at hi
        omega
      have hm : a ∈ (before ++ a :: rest).take i := by
        rw [List.take_append, List.take_cons (by omega)]
        simp
      exact absurd (htake a hm) (hlt a List.mem_cons_self).not_ge
  · rintro rfl
    refine ⟨by simp, ?_, ?_⟩
    · rwa [List.take_left]
    · rwa [List.drop_left]

theorem le_of_mem_takeWhile (as : List (Addition α)) (new : Addition α) :
    ∀ a ∈ as.takeWhile (·.precedes new), a.key ≤ new.key := by
  intro a ha
  exact (precedes_iff a new).mp (List.mem_takeWhile_imp (p := fun b : Addition α => b.precedes new) ha)

theorem lt_of_mem_dropWhile (as : List (Addition α)) (h : as.Pairwise (·.key < ·.key))
    (new : Addition α) : ∀ a ∈ as.dropWhile (·.precedes new), new.key < a.key := by
  induction as with
  | nil => simp
  | cons b as ih =>
    obtain ⟨hb, has⟩ := List.pairwise_cons.mp h
    rw [List.dropWhile_cons]
    split
    · exact ih has
    next hlt =>
      rw [precedes_iff, not_le] at hlt
      intro a ha
      obtain rfl | ha := List.mem_cons.mp ha
      · exact hlt
      · exact hlt.trans (hb a ha)

end Addition

namespace Listeners

variable {α : Type}

/-- Listeners hold additions, numbered as they were made, in the order of their keys. -/
structure Holds (ls : Listeners α) (as : List (Addition α)) : Prop where
  perm : ls.additions.Perm as
  ascending : ls.additions.Pairwise (·.key < ·.key)
  numbered : as.Pairwise (·.number < ·.number)
  fresh : ∀ a ∈ as, a.number < ls.count

namespace Holds

variable {ls : Listeners α} {as : List (Addition α)}

theorem empty : Holds (empty : Listeners α) [] := by
  constructor <;> simp [Listeners.empty]

theorem exists_place (h : Holds ls as) (order : Option Int) (listener : α) :
    ∃ before after, ls.additions = before ++ after ∧
      (ls.add order listener).additions = before ++ ⟨order, ls.count, listener⟩ :: after ∧
      (∀ a ∈ before, a.key < Addition.key ⟨order, ls.count, listener⟩) ∧
      ∀ a ∈ after, Addition.key ⟨order, ls.count, listener⟩ < a.key := by
  refine ⟨_, _, List.takeWhile_append_dropWhile.symm, rfl, fun a ha => ?_,
    Addition.lt_of_mem_dropWhile _ h.ascending _⟩
  have hle := Addition.le_of_mem_takeWhile _ _ a ha
  have hm : a ∈ as := h.perm.mem_iff.mp ((List.takeWhile_sublist _).subset ha)
  refine lt_of_le_of_ne hle fun heq => ?_
  exact (h.fresh a hm).ne (Addition.number_eq_of_key_eq _ _ heq)

theorem add (h : Holds ls as) (order : Option Int) (listener : α) :
    Holds (ls.add order listener) (as ++ [⟨order, ls.count, listener⟩]) := by
  obtain ⟨before, after, hsplit, hadd, hlow, hhigh⟩ := h.exists_place order listener
  have hpair := hsplit ▸ h.ascending
  rw [List.pairwise_append] at hpair
  constructor
  · rw [hadd]
    refine List.perm_middle.trans ((List.Perm.cons _ ?_).trans (List.perm_append_singleton _ _).symm)
    exact hsplit ▸ h.perm
  · rw [hadd, List.pairwise_append, List.pairwise_cons]
    refine ⟨hpair.1, ⟨hhigh, hpair.2.1⟩, fun a ha b hb => ?_⟩
    obtain rfl | hb := List.mem_cons.mp hb
    · exact hlow a ha
    · exact hpair.2.2 a ha b hb
  · rw [List.pairwise_append]
    refine ⟨h.numbered, List.pairwise_singleton _ _, fun a ha b hb => ?_⟩
    rw [List.mem_singleton.mp hb]
    exact h.fresh a ha
  · intro a ha
    obtain ha | ha := List.mem_append.mp ha
    · exact Nat.lt_succ_of_lt (h.fresh a ha)
    · rw [List.mem_singleton.mp ha]
      exact Nat.lt_succ_self _

theorem filter (h : Holds ls as) (p : Addition α → Bool) :
    Holds { ls with additions := ls.additions.filter p } (as.filter p) where
  perm := h.perm.filter p
  ascending := h.ascending.filter p
  numbered := h.numbered.filter p
  fresh a ha := h.fresh a (List.mem_filter.mp ha).1

theorem additions_eq (h : Holds ls as) : ls.additions = as.mergeSort Addition.inOrder := by
  have hsorted := Addition.pairwise_key_mergeSort as h.numbered
  refine List.Perm.eq_of_pairwise (fun a b _ _ hab hba => absurd hab hba.not_gt) h.ascending hsorted ?_
  exact h.perm.trans (List.mergeSort_perm as _).symm

end Holds

inductive Call (α : Type)
  | add (order : Option Int) (listener : α)
  | remove (listener : α)
  | clear

variable [DecidableEq α]

def call (ls : Listeners α) : Call α → Listeners α
  | .add order listener => ls.add order listener
  | .remove listener => ls.remove listener
  | .clear => ls.clear

def calls (ls : Listeners α) (cs : List (Call α)) : Listeners α := cs.foldl call ls

def Call.spares (listener : α) : Call α → Bool
  | .add _ _ => true
  | .remove l => listener != l
  | .clear => false

/-- The additions among calls that all later calls spare, in the order in which they were made.
`n` additions came before. -/
def survivors (n : Nat) : List (Call α) → List (Addition α)
  | [] => []
  | .add order listener :: cs =>
    if cs.all (·.spares listener) then ⟨order, n, listener⟩ :: survivors (n + 1) cs
    else survivors (n + 1) cs
  | .remove _ :: cs => survivors n cs
  | .clear :: cs => survivors n cs

def additionCount : List (Call α) → Nat
  | [] => 0
  | .add _ _ :: cs => additionCount cs + 1
  | .remove _ :: cs => additionCount cs
  | .clear :: cs => additionCount cs

theorem survivors_append (n : Nat) (cs : List (Call α)) (c : Call α) :
    survivors n (cs ++ [c]) = (survivors n cs).filter (fun a => c.spares a.listener) ++
      survivors (n + additionCount cs) [c] := by
  induction cs generalizing n with
  | nil => simp [survivors, additionCount]
  | cons d cs ih =>
    cases d with
    | add order listener =>
      have hn : n + 1 + additionCount cs = n + additionCount (.add order listener :: cs) := by
        rw [additionCount]
        omega
      simp only [List.cons_append, survivors, ih, hn, List.all_append, List.all_cons, List.all_nil,
        Bool.and_true]
      by_cases hcs : cs.all (·.spares listener) = true
      · cases hc : c.spares listener <;> simp [hcs, hc]
      · simp [hcs]
    | remove listener => exact ih n
    | clear => exact ih n

theorem Holds.call {ls : Listeners α} {as : List (Addition α)} (h : Holds ls as) (c : Call α) :
    Holds (ls.call c) (as.filter (fun a => c.spares a.listener) ++ survivors ls.count [c]) := by
  cases c with
  | add order listener =>
    have hkeep : as.filter (fun a => (Call.add order listener).spares a.listener) = as :=
      List.filter_eq_self.mpr fun _ _ => rfl
    rw [hkeep]
    exact h.add order listener
  | remove listener =>
    rw [survivors, survivors, List.append_nil]
    exact h.filter fun a => a.listener != listener
  | clear =>
    have hnone : as.filter (fun a => Call.clear.spares a.listener) = [] :=
      List.filter_eq_nil_iff.mpr fun _ _ => Bool.false_ne_true
    rw [hnone]
    exact ⟨.nil, .nil, .nil, nofun⟩

theorem count_calls (ls : Listeners α) (cs : List (Call α)) :
    (ls.calls cs).count = ls.count + additionCount cs := by
  induction cs generalizing ls with
  | nil => rfl
  | cons c cs ih =>
    rw [calls, List.foldl_cons, ← calls, ih]
    cases c with
    | add order listener => exact Nat.add_right_comm _ 1 _
    | remove listener => rfl
    | clear => rfl

theorem holds_calls (cs : List (Call α)) : Holds ((empty : Listeners α).calls cs) (survivors 0 cs) := by
  induction cs using List.reverseRecOn with
  | nil => exact .empty
  | append_singleton cs c ih =>
    have hnext := ih.call c
    rw [count_calls] at hnext
    rw [survivors_append, calls, List.foldl_append]
    exact hnext

theorem contains_iff (ls : Listeners α) (listener : α) :
    ls.contains listener = true ↔ ∃ a ∈ ls.additions, a.listener = listener := by
  simp [contains]

theorem size_remove_ne_iff (ls : Listeners α) (listener : α) :
    (ls.remove listener).size ≠ ls.size ↔ ls.contains listener = true := by
  have hle := List.length_filter_le (·.listener != listener) ls.additions
  rw [contains_iff, size, size, remove, ← lt_iff_le_and_ne.trans (and_iff_right hle),
    List.length_filter_lt_length_iff_exists]
  simp

/-- Whatever is added, removed and cleared, the additions that are held ascend strictly by their
keys, so that there is just one place for a new one, and listeners are told in the order of a stable
sort of the additions that were not taken out again. A removal is answered by whether there was an
addition of the listener, which is also when listeners get fewer. -/
theorem told_in_stable_order (cs : List (Call α)) :
    let ls := (empty : Listeners α).calls cs
    ls.additions.Pairwise (fun a b => a.key < b.key) ∧
      ls.toList = ((survivors 0 cs).mergeSort Addition.inOrder).map (·.listener) ∧
      (∀ listener, (ls.contains listener = true ↔ ∃ a ∈ survivors 0 cs, a.listener = listener) ∧
        ((ls.remove listener).size ≠ ls.size ↔ ls.contains listener = true)) ∧
      ∀ order listener, ∃ i,
        let new := ⟨order, ls.count, listener⟩
        (∀ j, Addition.Parts ls.additions new j ↔ j = i) ∧
          (ls.add order listener).additions = ls.additions.take i ++ new :: ls.additions.drop i := by
  intro ls
  have h : Holds ls (survivors 0 cs) := holds_calls cs
  refine ⟨h.ascending, congrArg (List.map _) h.additions_eq, fun listener => ⟨?_, ?_⟩,
    fun order listener => ?_⟩
  · rw [contains_iff]
    simp only [h.perm.mem_iff]
  · exact size_remove_ne_iff ls listener
  · obtain ⟨before, after, hsplit, hadd, hlow, hhigh⟩ := h.exists_place order listener
    refine ⟨before.length, ?_, ?_⟩
    · rw [hsplit]
      exact Addition.parts_append_iff before after _ (fun a ha => (hlow a ha).le) hhigh
    · rw [hadd, hsplit, List.take_left, List.drop_left]

example : ((empty : Listeners String).calls [.add none "a", .add (some 5) "b", .add (some (-1)) "c",
    .add none "a", .remove "b", .add (some 0) "b"]).toList = ["c", "b", "a", "a"] := by decide

end Listeners

end CronTasks
