import Mathlib.Order.Lattice

namespace CronTasks

variable {α β : Type} [LinearOrder β] (order : α → β)

def sortedBy (as : List α) : List α := as.mergeSort fun a b => order a ≤ order b

theorem inOrder_trans (a b c : α) (hab : decide (order a ≤ order b) = true)
    (hbc : decide (order b ≤ order c) = true) : decide (order a ≤ order c) = true :=
  decide_eq_true ((of_decide_eq_true hab).trans (of_decide_eq_true hbc))

theorem inOrder_total (a b : α) : (decide (order a ≤ order b) || decide (order b ≤ order a)) = true := by
  rw [Bool.or_eq_true]
  exact (le_total (order a) (order b)).imp decide_eq_true decide_eq_true

theorem pairwise_sortedBy (as : List α) : (sortedBy order as).Pairwise fun a b => order a ≤ order b :=
  (List.pairwise_mergeSort (inOrder_trans order) (inOrder_total order) as).imp of_decide_eq_true

theorem sortedBy_cons (a : α) (as : List α) : ∃ front back,
    sortedBy order (a :: as) = front ++ a :: back ∧ sortedBy order as = front ++ back ∧
      (∀ b ∈ front, order b < order a) ∧ ∀ b ∈ back, order a ≤ order b := by
  obtain ⟨front, back, hsort, hrest, hfront⟩ :=
    List.mergeSort_cons (inOrder_trans order) (inOrder_total order) a as
  have hpair := pairwise_sortedBy order (a :: as)
  rw [sortedBy, hsort, List.pairwise_append, List.pairwise_cons] at hpair
  exact ⟨front, back, hsort, hrest, fun b hb => by simpa using hfront b hb, hpair.2.1.1⟩

theorem filter_sortedBy (as : List α) (b : β) :
    (sortedBy order as).filter (order · = b) = as.filter (order · = b) := by
  induction as with
  | nil => simp [sortedBy]
  | cons a as ih =>
    obtain ⟨front, back, hsort, hrest, hfront, -⟩ := sortedBy_cons order a as
    rw [hrest, List.filter_append] at ih
    rw [hsort, List.filter_append]
    by_cases ha : order a = b
    · have hnone : front.filter (order · = b) = [] := by
        refine List.filter_eq_nil_iff.mpr fun c hc => ?_
        simpa using (ha ▸ hfront c hc).ne
      rw [hnone, List.nil_append] at ih ⊢
      rw [List.filter_cons_of_pos (by simpa using ha), List.filter_cons_of_pos (by simpa using ha), ih]
    · rw [List.filter_cons_of_neg (by simpa using ha), List.filter_cons_of_neg (by simpa using ha), ih]

theorem order_le_of_mem {a b : α} {as : List α}
    (h : (a :: as).Pairwise fun a b => order a ≤ order b) (hb : b ∈ a :: as) : order a ≤ order b := by
  obtain rfl | hb := List.mem_cons.mp hb
  · exact le_rfl
  · exact List.rel_of_pairwise_cons h hb

/-- What is sorted is known by what it has of each order. -/
theorem eq_of_filter_eq (as bs : List α) (ha : as.Pairwise fun a b => order a ≤ order b)
    (hb : bs.Pairwise fun a b => order a ≤ order b)
    (h : ∀ n, as.filter (order · = n) = bs.filter (order · = n)) : as = bs := by
  have hmem (a : α) : a ∈ as ↔ a ∈ bs := by
    have hf := congrArg (a ∈ ·) (h (order a))
    simpa using hf
  induction as generalizing bs with
  | nil => exact (List.eq_nil_iff_forall_not_mem.mpr fun b hm => by simpa using (hmem b).mpr hm).symm
  | cons a as ih =>
    cases bs with
    | nil => exact absurd ((hmem a).mp List.mem_cons_self) List.not_mem_nil
    | cons b bs =>
      have hab : order a = order b := by
        apply le_antisymm
        · exact order_le_of_mem order ha ((hmem b).mpr List.mem_cons_self)
        · exact order_le_of_mem order hb ((hmem a).mp List.mem_cons_self)
      obtain rfl : a = b := by
        have hf := h (order a)
        rw [List.filter_cons_of_pos (by simp), List.filter_cons_of_pos (by simp [hab])] at hf
        exact (List.cons.inj hf).1
      have hrest (n : β) : as.filter (order · = n) = bs.filter (order · = n) := by
        have hf := h n
        rw [List.filter_cons, List.filter_cons] at hf
        split at hf
        · exact (List.cons.inj hf).2
        · exact hf
      rw [ih bs ha.of_cons hb.of_cons hrest fun c => by simpa using congrArg (c ∈ ·) (hrest (order c))]

theorem sortedBy_congr {as bs : List α}
    (h : ∀ n, as.filter (order · = n) = bs.filter (order · = n)) :
    sortedBy order as = sortedBy order bs := by
  apply eq_of_filter_eq order _ _ (pairwise_sortedBy order as) (pairwise_sortedBy order bs)
  intro n
  rw [filter_sortedBy, filter_sortedBy, h n]

/-- Of those that have a property the last by order, and among those of one order by place. -/
def IsLast (p : α → Prop) (a : α) (as : List α) : Prop :=
  ∃ before after, as = before ++ a :: after ∧ p a ∧ (∀ b ∈ before, p b → order b ≤ order a) ∧
    ∀ b ∈ after, p b → order b < order a

theorem exists_isLast (p : α → Prop) (as : List α) (h : ∃ a ∈ as, p a) : ∃ a, IsLast order p a as := by
  induction as with
  | nil => simp at h
  | cons c as ih =>
    by_cases has : ∃ a ∈ as, p a
    · obtain ⟨a, before, after, rfl, ha, hbefore, hafter⟩ := ih has
      by_cases hc : p c ∧ order a < order c
      · -- all the others come before the first one
        refine ⟨c, [], _, rfl, hc.1, nofun, fun b hb hpb => ?_⟩
        obtain hb | hb := List.mem_append.mp hb
        · exact (hbefore b hb hpb).trans_lt hc.2
        · obtain rfl | hb := List.mem_cons.mp hb
          · exact hc.2
          · exact (hafter b hb hpb).trans hc.2
      · refine ⟨a, c :: before, after, rfl, ha, fun b hb hpb => ?_, hafter⟩
        obtain rfl | hb := List.mem_cons.mp hb
        · exact not_lt.mp fun hlt => hc ⟨hpb, hlt⟩
        · exact hbefore b hb hpb
    · have hc : p c := by
        obtain ⟨a, ha, hpa⟩ := h
        obtain rfl | ha := List.mem_cons.mp ha
        · exact hpa
        · exact absurd ⟨a, ha, hpa⟩ has
      exact ⟨c, [], as, rfl, hc, nofun, fun b hb hpb => absurd ⟨b, hb, hpb⟩ has⟩

/-- Sorting brings the last one behind all others that have the property. -/
theorem IsLast.exists_sortedBy_eq {p : α → Prop} {a : α} {as : List α} (h : IsLast order p a as) :
    ∃ front back, sortedBy order as = front ++ a :: back ∧ ∀ b ∈ back, ¬ p b := by
  obtain ⟨before, after, rfl, ha, hbefore, hafter⟩ := h
  induction before with
  | nil =>
    obtain ⟨front, back, hsort, hrest, -, hback⟩ := sortedBy_cons order a after
    refine ⟨front, back, hsort, fun b hb hpb => ?_⟩
    have hm : b ∈ sortedBy order after := hrest ▸ List.mem_append_right front hb
    exact absurd (hback b hb) (not_le.mpr (hafter b (List.mem_mergeSort.mp hm) hpb))
  | cons c before ih =>
    obtain ⟨front, back, hlast, hnone⟩ := ih fun b hb => hbefore b (List.mem_cons_of_mem c hb)
    obtain ⟨early, late, hsort, hrest, hearly, -⟩ := sortedBy_cons order c (before ++ a :: after)
    -- the one in front is sorted in before the last one, or it comes behind it for its order
    obtain ⟨x, rfl, rfl⟩ | ⟨x, rfl, hx⟩ := List.append_eq_append_iff.mp (hrest.symm.trans hlast)
    · exact ⟨early ++ c :: x, back, by simpa using hsort, hnone⟩
    · cases x with
      | nil =>
        obtain rfl : a :: back = late := hx
        exact ⟨front ++ [c], back, by simpa using hsort, hnone⟩
      | cons y ys =>
        obtain ⟨rfl, rfl⟩ := List.cons.inj hx
        refine ⟨front, ys ++ c :: late, by simpa using hsort, fun b hb => ?_⟩
        obtain hb | hb := List.mem_append.mp hb
        · exact hnone b (List.mem_append_left late hb)
        · obtain rfl | hb := List.mem_cons.mp hb
          · intro hpb
            exact absurd (hbefore b List.mem_cons_self hpb) (not_le.mpr (hearly a (by simp)))
          · exact hnone b (List.mem_append_right ys hb)

end CronTasks
