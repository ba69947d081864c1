import CronTasks.Proofs.Document.Json
import CronTasks.Text.Blank
import CronTasks.Trigger.Id

namespace CronTasks.JobKey

open Document

theorem ofId?_id (k : JobKey) : ofId? k.id = some k := by
  have h := Json.read?_writeTable [("group", k.group), ("name", k.name)] (by simp)
  simp only [List.map_cons, List.map_nil] at h
  rw [ofId?, id, h]
  rfl

theorem blank_id (k : JobKey) : Text.blank k.id = false := by
  have h := Json.toList_writeTable [("group", k.group), ("name", k.name)]
  simp only [List.map_cons, List.map_nil] at h
  rw [Text.blank, id, h]
  rfl

theorem id_injective (j k : JobKey) (h : j.id = k.id) : j = k :=
  Option.some.inj (by rw [← ofId?_id j, h, ofId?_id])

theorem triggerKey_injective (j k : JobKey) (h : j.triggerKey = k.triggerKey) : j = k := by
  cases j
  cases k
  cases h
  rfl

theorem append_mark_inj (mark : Char) (a b c d : List Char) (h : a ++ mark :: b = c ++ mark :: d)
    (ha : mark ∉ a) (hc : mark ∉ c) : a = c ∧ b = d := by
  obtain ⟨x, hx, hb⟩ | ⟨x, hx, hd⟩ := List.append_eq_append_iff.mp h
  · cases x with
    | nil => simpa [eq_comm] using And.intro hx hb
    | cons y ys =>
      obtain ⟨rfl, -⟩ := List.cons.inj hb
      exact absurd (by simp [hx]) hc
  · cases x with
    | nil => simpa [eq_comm] using And.intro hx hd
    | cons y ys =>
      obtain ⟨rfl, -⟩ := List.cons.inj hd
      exact absurd (by simp [hx]) ha

/-- Keys may share an identity, but not where the mark in it is in no group, or in no name. -/
theorem eq_of_identity_eq (j k : JobKey) (h : j.identity = k.identity)
    (hm : '@' ∉ j.group.toList ∧ '@' ∉ k.group.toList ∨ '@' ∉ j.name.toList ∧ '@' ∉ k.name.toList) :
    j = k := by
  have hl : j.group.toList ++ '@' :: j.name.toList = k.group.toList ++ '@' :: k.name.toList := by
    simpa [identity, String.toList_append] using congrArg String.toList h
  have hgn : j.group.toList = k.group.toList ∧ j.name.toList = k.name.toList := by
    obtain ⟨hj, hk⟩ | ⟨hj, hk⟩ := hm
    · exact append_mark_inj '@' _ _ _ _ hl hj hk
    · have hr := congrArg List.reverse hl
      simp only [List.reverse_append, List.reverse_cons, List.append_assoc, List.singleton_append]
        at hr
      obtain ⟨hn, hg⟩ := append_mark_inj '@' _ _ _ _ hr (by simpa using hj) (by simpa using hk)
      exact ⟨List.reverse_inj.mp hg, List.reverse_inj.mp hn⟩
  cases j
  cases k
  simp_all [String.toList_inj]

instance : Std.TransCmp compare :=
  inferInstanceAs (Std.TransCmp (compareLex (compareOn JobKey.name) (compareOn JobKey.group)))

theorem compare_self (k : JobKey) : k.compare k = .eq :=
  Std.ReflCmp.compare_self

theorem compare_swap (j k : JobKey) : k.compare j = (j.compare k).swap :=
  Std.OrientedCmp.eq_swap

theorem eq_of_compare_eq (j k : JobKey) (h : j.compare k = .eq) : j = k := by
  obtain ⟨hname, hgroup⟩ := Ordering.then_eq_eq.mp h
  have hn : j.name = k.name := Std.LawfulEqOrd.eq_of_compare hname
  have hg : j.group = k.group := Std.LawfulEqOrd.eq_of_compare hgroup
  cases j
  cases k
  cases hn
  cases hg
  rfl

theorem pairwise_mergeSort (ks : List JobKey) (hn : ks.Nodup) :
    (ks.mergeSort fun j k => (j.compare k).isLE).Pairwise fun j k => j.compare k = .lt := by
  have htotal (j k : JobKey) : ((j.compare k).isLE || (k.compare j).isLE) = true := by
    rw [compare_swap j k]
    cases j.compare k <;> rfl
  have hsorted : (ks.mergeSort fun j k => (j.compare k).isLE).Pairwise
      fun j k => (j.compare k).isLE = true :=
    List.pairwise_mergeSort (fun _ _ _ => Std.TransCmp.isLE_trans) htotal ks
  have hnodup := (List.mergeSort_perm ks fun j k => (j.compare k).isLE).nodup_iff.mpr hn
  refine (List.pairwise_and_iff.mpr ⟨hsorted, hnodup⟩).imp fun {j k} h => ?_
  cases hc : j.compare k with
  | lt => rfl
  | eq => exact absurd (eq_of_compare_eq j k hc) h.2
  | gt =>
    have hle := h.1
    rw [hc] at hle
    cases hle

end CronTasks.JobKey
