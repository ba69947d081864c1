import CronTasks.Text.EditDistance
import Mathlib.Data.String.Basic
import Mathlib.Data.Prod.Lex
import Mathlib.Order.Bounds.Basic

namespace CronTasks.Text

variable {α : Type}

/-- One element is put in, taken out or replaced. -/
inductive Edit : List α → List α → Prop
  | insert (before after : List α) (x : α) : Edit (before ++ after) (before ++ x :: after)
  | delete (before after : List α) (x : α) : Edit (before ++ x :: after) (before ++ after)
  | substitute (before after : List α) (x y : α) :
    Edit (before ++ x :: after) (before ++ y :: after)

inductive Edits : Nat → List α → List α → Prop
  | refl (xs : List α) : Edits 0 xs xs
  | tail {n : Nat} {xs ys zs : List α} : Edits n xs ys → Edit ys zs → Edits (n + 1) xs zs

theorem Edit.cons {xs ys : List α} (h : Edit xs ys) (z : α) : Edit (z :: xs) (z :: ys) := by
  cases h with
  | insert before after x => exact .insert (z :: before) after x
  | delete before after x => exact .delete (z :: before) after x
  | substitute before after x y => exact .substitute (z :: before) after x y

theorem Edit.reverse {xs ys : List α} (h : Edit xs ys) : Edit xs.reverse ys.reverse := by
  cases h with
  | insert before after x =>
    simpa using Edit.insert after.reverse before.reverse x
  | delete before after x =>
    simpa using Edit.delete after.reverse before.reverse x
  | substitute before after x y =>
    simpa using Edit.substitute after.reverse before.reverse x y

namespace Edits

theorem cons {n : Nat} {xs ys : List α} (h : Edits n xs ys) (z : α) :
    Edits n (z :: xs) (z :: ys) := by
  induction h with
  | refl xs => exact .refl (z :: xs)
  | tail _ h ih => exact .tail ih (h.cons z)

theorem head {n : Nat} {xs ys zs : List α} (hs : Edits n ys zs) (h : Edit xs ys) :
    Edits (n + 1) xs zs := by
  induction hs with
  | refl ys => exact .tail (.refl xs) h
  | tail _ h' ih => exact .tail (ih h) h'

theorem reverse {n : Nat} {xs ys : List α} (h : Edits n xs ys) : Edits n xs.reverse ys.reverse := by
  induction h with
  | refl xs => exact .refl xs.reverse
  | tail _ h ih => exact .tail ih h.reverse

theorem reverse_iff {n : Nat} {xs ys : List α} :
    Edits n xs.reverse ys.reverse ↔ Edits n xs ys :=
  ⟨fun h => by simpa using h.reverse, reverse⟩

end Edits

variable [DecidableEq α]

/-- The distance of two lists by what becomes of their first elements: one is replaced by the
other or is the same, one is taken out, or the other is put in. -/
def distance : List α → List α → Nat
  | [], ys => ys.length
  | _ :: xs, [] => xs.length + 1
  | x :: xs, y :: ys =>
    min (min (distance xs ys + if x = y then 0 else 1) (distance xs (y :: ys) + 1))
      (distance (x :: xs) ys + 1)
termination_by xs ys => xs.length + ys.length

theorem distance_nil (xs : List α) : distance xs [] = xs.length := by
  cases xs <;> simp [distance]

/-- One element more or less in front of a list changes a distance by one at most. -/
theorem distance_cons_right_le (xs ys : List α) (y : α) :
    distance xs (y :: ys) ≤ distance xs ys + 1 := by
  cases xs <;> simp [distance]

theorem distance_cons_left_le (xs ys : List α) (x : α) :
    distance (x :: xs) ys ≤ distance xs ys + 1 := by
  cases ys <;> simp [distance, distance_nil]

theorem distance_le_cons_right (xs ys : List α) (y : α) :
    distance xs ys ≤ distance xs (y :: ys) + 1 := by
  induction xs with
  | nil =>
    simp only [distance, List.length_cons]
    omega
  | cons x xs ih =>
    have hx := distance_cons_left_le xs ys x
    rw [distance]
    omega

theorem distance_le_cons_left (xs ys : List α) (x : α) :
    distance xs ys ≤ distance (x :: xs) ys + 1 := by
  induction ys with
  | nil =>
    simp only [distance_nil, List.length_cons]
    omega
  | cons y ys ih =>
    have hy := distance_cons_right_le xs ys y
    rw [distance]
    omega

theorem distance_cons_cons (xs ys : List α) (x y : α) :
    distance (x :: xs) (y :: ys) = if x = y then distance xs ys
      else 1 + min (min (distance xs ys) (distance xs (y :: ys))) (distance (x :: xs) ys) := by
  have hx := distance_le_cons_left xs ys x
  have hy := distance_le_cons_right xs ys y
  rw [distance]
  split <;> omega

theorem distance_cons_le_of_le (ys zs : List α)
    (h : ∀ xs : List α, distance xs zs ≤ distance xs ys + 1) (y : α) (xs : List α) :
    distance xs (y :: zs) ≤ distance xs (y :: ys) + 1 := by
  induction xs with
  | nil =>
    have hn := h []
    simp only [distance, List.length_cons] at hn ⊢
    omega
  | cons x xs ih =>
    have hxs := h xs
    have hx := h (x :: xs)
    rw [distance, distance]
    omega

theorem distance_substitute_le (ys : List α) (y z : α) (xs : List α) :
    distance xs (z :: ys) ≤ distance xs (y :: ys) + 1 := by
  induction xs with
  | nil => simp [distance]
  | cons x xs ih =>
    rw [distance, distance]
    split <;> split <;> omega

theorem distance_edit_le {ys zs : List α} (h : Edit ys zs) (xs : List α) :
    distance xs zs ≤ distance xs ys + 1 := by
  have hbefore : ∀ before ys zs : List α, (∀ xs : List α, distance xs zs ≤ distance xs ys + 1) →
      ∀ xs, distance xs (before ++ zs) ≤ distance xs (before ++ ys) + 1 := by
    intro before ys zs hle
    induction before with
    | nil => exact hle
    | cons y before ih => exact distance_cons_le_of_le _ _ ih y
  cases h with
  | insert before after x =>
    exact hbefore before _ _ (fun xs => distance_cons_right_le xs after x) xs
  | delete before after x =>
    exact hbefore before _ _ (fun xs => distance_le_cons_right xs after x) xs
  | substitute before after x y =>
    exact hbefore before _ _ (distance_substitute_le after x y) xs

theorem distance_self (xs : List α) : distance xs xs = 0 := by
  induction xs with
  | nil => exact distance_nil []
  | cons x xs ih => rw [distance_cons_cons, if_pos rfl, ih]

theorem distance_le_of_edits {n : Nat} {xs ys : List α} (h : Edits n xs ys) :
    distance xs ys ≤ n := by
  induction h with
  | refl xs => exact (distance_self xs).le
  | tail _ h ih => exact (distance_edit_le h _).trans (Nat.succ_le_succ ih)

theorem edits_distance (xs ys : List α) : Edits (distance xs ys) xs ys := by
  fun_induction distance xs ys with
  | case1 ys =>
    induction ys with
    | nil => exact .refl []
    | cons y ys ih => exact (ih.cons y).head (.insert [] [] y)
  | case2 x xs =>
    induction xs generalizing x with
    | nil => exact (Edits.refl []).head (.delete [] [] x)
    | cons z xs ih => exact (ih z).head (.delete [] (z :: xs) x)
  | case3 x xs y ys ihboth ihleft ihright =>
    -- each of the three ways to a cell takes as many edits as it counts
    have hboth : Edits (distance xs ys + if x = y then 0 else 1) (x :: xs) (y :: ys) := by
      split
      next he =>
        subst he
        exact ihboth.cons x
      next hne => exact .tail (ihboth.cons x) (.substitute [] ys x y)
    have hleft := ihleft.head (.delete [] xs x)
    have hright := ihright.tail (.insert [] ys y)
    have hmin := min_rec' (fun n => Edits n (x :: xs) (y :: ys)) hboth hleft
    exact min_rec' (fun n => Edits n (x :: xs) (y :: ys)) hmin hright

/-- The distance is the least number of edits. -/
theorem isLeast_distance (xs ys : List α) : IsLeast {n | Edits n xs ys} (distance xs ys) :=
  ⟨edits_distance xs ys, fun _ => distance_le_of_edits⟩

def distances (xs before : List α) : List α → List Nat
  | [] => []
  | y :: ys => distance xs (y :: before) :: distances xs (y :: before) ys

/-- The row of a list: its distances to all beginnings of another one, both read backwards. -/
def row (xs ys : List α) : List Nat := distance xs [] :: distances xs [] ys

theorem length_distances (xs before ys : List α) :
    (distances xs before ys).length = ys.length := by
  induction ys generalizing before with
  | nil => rfl
  | cons y ys ih => simp [distances, ih]

theorem distances_nil (before ys : List α) :
    distances [] before ys = List.range' (before.length + 1) ys.length := by
  induction ys generalizing before with
  | nil => rfl
  | cons y ys ih => simp [distances, distance, ih, List.range'_succ]

theorem row_nil (ys : List α) : row [] ys = List.range (ys.length + 1) := by
  rw [row, distances_nil, distance_nil, List.range_eq_range', List.range'_succ]
  rfl

theorem getLastD_distances (xs before ys : List α) :
    (distances xs before ys).getLastD (distance xs before) = distance xs (ys.reverse ++ before) := by
  induction ys generalizing before with
  | nil => rfl
  | cons y ys ih =>
    rw [distances, List.getLastD_cons, ih, List.reverse_cons, List.append_assoc]
    rfl

theorem getLast?_row (xs ys : List α) : (row xs ys).getLast? = some (distance xs ys.reverse) := by
  rw [row, List.getLast?_cons, ← List.getLastD_eq_getLast?, getLastD_distances, List.append_nil]

/-- Cells are made from the cells around them as distances are. -/
theorem extendRow_distances (c : Char) (cs before ds : List Char) :
    extendRow c (distance cs before) (distance (c :: cs) before) ds (distances cs before ds) =
      distances (c :: cs) before ds := by
  induction ds generalizing before with
  | nil => rfl
  | cons d ds ih => rw [distances, distances, extendRow, ← distance_cons_cons, ih]

theorem nextRow_row (c : Char) (cs ds : List Char) : nextRow ds (row cs ds) c = row (c :: cs) ds := by
  have hfirst : distance cs [] + 1 = distance (c :: cs) [] := by
    rw [distance_nil, distance_nil, List.length_cons]
  rw [row, nextRow, hfirst, extendRow_distances, row]

theorem foldl_nextRow (xs cs ds : List Char) :
    cs.foldl (nextRow ds) (row xs ds) = row (cs.reverse ++ xs) ds := by
  induction cs generalizing xs with
  | nil => rfl
  | cons c cs ih => rw [List.foldl_cons, nextRow_row, ih, List.reverse_cons, List.append_assoc]; rfl

theorem editDistance_eq (cs ds : List Char) :
    editDistance cs ds = distance cs.reverse ds.reverse := by
  rw [editDistance, ← row_nil, foldl_nextRow, List.append_nil, List.getLastD_eq_getLast?,
    getLast?_row]
  rfl

theorem isLeast_editDistance (cs ds : List Char) :
    IsLeast {n | Edits n cs ds} (editDistance cs ds) := by
  have h := isLeast_distance cs.reverse ds.reverse
  simp only [Edits.reverse_iff] at h
  rwa [editDistance_eq]

example : editDistance "kitten".toList "sitting".toList = 3 := by decide

theorem sweep?_eq (c : Char) (diagonal left : Nat) (before rest : List Nat) (ds : List Char)
    (h : rest.length = ds.length) :
    sweep? c before.length diagonal ds (before ++ left :: rest) =
      some (before ++ left :: extendRow c diagonal left ds rest) := by
  -- to the left stand cells of the new row, and to the right still those of the old one
  induction ds generalizing diagonal left before rest with
  | nil =>
    rw [List.eq_nil_of_length_eq_zero h]
    rfl
  | cons d ds ih =>
    obtain ⟨above, rest, rfl⟩ := List.exists_of_length_succ rest h
    have hleft : (before ++ left :: above :: rest)[before.length]? = some left := by simp
    have habove : (before ++ left :: above :: rest)[before.length + 1]? = some above := by simp
    have hrest := ih above (if c = d then diagonal else 1 + min (min diagonal above) left)
      (before ++ [left]) rest (Nat.succ.inj h)
    simp only [sweep?, hleft, habove, extendRow]
    simpa using hrest

theorem sweeps?_eq (ds xs cs : List Char) :
    sweeps? ds xs.length cs (row xs ds) = some (row (cs.reverse ++ xs) ds) := by
  induction cs generalizing xs with
  | nil => rfl
  | cons c cs ih =>
    have hset : (row xs ds).set 0 (xs.length + 1) = distance (c :: xs) [] :: distances xs [] ds := by
      rw [distance_nil (c :: xs), row, List.set_cons_zero, List.length_cons]
    have hsweep := sweep?_eq c (distance xs []) (distance (c :: xs) []) [] (distances xs [] ds) ds
      (length_distances xs [] ds)
    rw [List.nil_append, List.nil_append, List.length_nil, ← hset, extendRow_distances] at hsweep
    have hfirst : (row xs ds)[0]? = some (distance xs []) := rfl
    simp only [sweeps?, hfirst, hsweep]
    rw [List.reverse_cons, List.append_assoc]
    exact ih (c :: xs)

/-- No access goes past the end of the row, and the cell that is read last holds the distance. -/
theorem editDistanceInPlace?_eq (cs ds : List Char) :
    editDistanceInPlace? cs ds = some (editDistance cs ds) := by
  have hsweeps : sweeps? ds 0 cs (List.range (ds.length + 1)) = some (row cs.reverse ds) := by
    rw [← row_nil, ← List.append_nil cs.reverse]
    exact sweeps?_eq ds [] cs
  have hlength : (row cs.reverse ds).length = ds.length + 1 := by
    rw [row, List.length_cons, length_distances]
  have hlast := getLast?_row cs.reverse ds
  rw [List.getLast?_eq_getElem?, hlength] at hlast
  simp only [editDistanceInPlace?, hsweeps, editDistance_eq]
  exact hlast

/-- A candidate that a name may be a slip for. -/
def IsSlip (name s : String) : Prop :=
  1 ≤ editDistance name.toList s.toList ∧ editDistance name.toList s.toList ≤ slipLimit

theorem mem_slips_iff (name : String) (candidates : List String) (n : Nat) (s : String) :
    (n, s) ∈ slips name candidates ↔
      s ∈ candidates ∧ IsSlip name s ∧ n = editDistance name.toList s.toList := by
  simp only [slips, List.mem_filter, List.mem_map, Prod.mk.injEq, Bool.and_eq_true,
    decide_eq_true_eq]
  constructor
  · rintro ⟨⟨t, ht, rfl, rfl⟩, hslip⟩
    exact ⟨ht, hslip, rfl⟩
  · rintro ⟨hs, hslip, rfl⟩
    exact ⟨⟨s, hs, rfl, rfl⟩, hslip⟩

theorem toLex_nearer (x y : Nat × String) : toLex (nearer x y) = min (toLex x) (toLex y) := by
  have hlt : (y.1 < x.1 ∨ y.1 = x.1 ∧ y.2 < x.2) ↔ toLex y < toLex x := by
    rw [Prod.Lex.toLex_lt_toLex]
  rw [nearer]
  split
  next h => exact (min_eq_right (hlt.mp h).le).symm
  next h => exact (min_eq_left (not_lt.mp (mt hlt.mpr h))).symm

theorem closest?_eq_min? (name : String) (candidates : List String) :
    closest? name candidates =
      ((slips name candidates).map toLex).min?.map fun x => (ofLex x).2 := by
  rw [closest?]
  cases slips name candidates with
  | nil => rfl
  | cons x xs =>
    have hfold : xs.foldl (fun y z => min y (toLex z)) (toLex x) = toLex (xs.foldl nearer x) :=
      List.foldl_hom toLex fun y z => (toLex_nearer y z).symm
    rw [List.map_cons, List.min?_cons', List.foldl_map, hfold]
    rfl

theorem closest?_eq_none_iff (name : String) (candidates : List String) :
    closest? name candidates = none ↔ ∀ s ∈ candidates, ¬ IsSlip name s := by
  rw [closest?_eq_min?, Option.map_eq_none_iff, List.min?_eq_none_iff, List.map_eq_nil_iff,
    List.eq_nil_iff_forall_not_mem]
  constructor
  · intro h s hs hslip
    exact h _ ((mem_slips_iff name candidates _ s).mpr ⟨hs, hslip, rfl⟩)
  · rintro h ⟨n, s⟩ hmem
    obtain ⟨hs, hslip, -⟩ := (mem_slips_iff name candidates n s).mp hmem
    exact h s hs hslip

theorem closest?_eq_some_iff (name : String) (candidates : List String) (s : String) :
    closest? name candidates = some s ↔ s ∈ candidates ∧ IsSlip name s ∧
      ∀ t ∈ candidates, IsSlip name t →
        editDistance name.toList s.toList < editDistance name.toList t.toList ∨
          editDistance name.toList s.toList = editDistance name.toList t.toList ∧ s ≤ t := by
  rw [closest?_eq_min?, Option.map_eq_some_iff]
  simp only [List.min?_eq_some_iff]
  constructor
  · rintro ⟨x, ⟨hmem, hleast⟩, rfl⟩
    obtain ⟨⟨n, s⟩, hx, rfl⟩ := List.mem_map.mp hmem
    obtain ⟨hs, hslip, rfl⟩ := (mem_slips_iff name candidates n s).mp hx
    refine ⟨hs, hslip, fun t ht htslip => ?_⟩
    have hy := (mem_slips_iff name candidates _ t).mpr ⟨ht, htslip, rfl⟩
    exact Prod.Lex.toLex_le_toLex.mp (hleast _ (List.mem_map_of_mem hy))
  · rintro ⟨hs, hslip, hleast⟩
    have hx := (mem_slips_iff name candidates _ s).mpr ⟨hs, hslip, rfl⟩
    refine ⟨_, ⟨List.mem_map_of_mem hx, fun y hmem => ?_⟩, rfl⟩
    obtain ⟨⟨n, t⟩, hy, rfl⟩ := List.mem_map.mp hmem
    obtain ⟨ht, htslip, rfl⟩ := (mem_slips_iff name candidates n t).mp hy
    exact Prod.Lex.toLex_le_toLex.mpr (hleast t ht htslip)

/-- The distance of two texts, which one row changed in place is enough for, is the least number of
characters to be put in, taken out or replaced. Among the candidates that one to three such edits
lead to, the one of the least distance is named, and the first by its letters of several; if there
are none, no candidate is named. -/
theorem nearest_slip_is_named :
    (∀ cs ds : List Char, IsLeast {n | Edits n cs ds} (editDistance cs ds) ∧
      editDistanceInPlace? cs ds = some (editDistance cs ds)) ∧
    ∀ (name : String) (candidates : List String),
      (∀ s, closest? name candidates = some s ↔ s ∈ candidates ∧ IsSlip name s ∧
        ∀ t ∈ candidates, IsSlip name t →
          editDistance name.toList s.toList < editDistance name.toList t.toList ∨
            editDistance name.toList s.toList = editDistance name.toList t.toList ∧ s ≤ t) ∧
      (closest? name candidates = none ↔ ∀ s ∈ candidates, ¬ IsSlip name s) :=
  ⟨fun cs ds => ⟨isLeast_editDistance cs ds, editDistanceInPlace?_eq cs ds⟩,
    fun name candidates =>
      ⟨closest?_eq_some_iff name candidates, closest?_eq_none_iff name candidates⟩⟩

end CronTasks.Text
