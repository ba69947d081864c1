import CronTasks.Text.Blank
import Mathlib.Data.List.Infix

namespace CronTasks.Text

/-- Texts after a first one, each with a separator before it. -/
def rows (c : Char) (xs : List (List Char)) : List Char := xs.flatMap (c :: ·)

theorem head?_rows (c : Char) (xs : List (List Char)) : ∀ d ∈ (rows c xs).head?, d = c := by
  cases xs with
  | nil => exact nofun
  | cons x xs =>
    intro d hd
    simpa [rows, eq_comm] using hd

theorem intercalate_eq_rows (c : Char) (x : List Char) (xs : List (List Char)) :
    [c].intercalate (x :: xs) = x ++ rows c xs := by
  induction xs generalizing x with
  | nil => simp [rows]
  | cons y xs ih =>
    rw [List.intercalate_cons_cons, ih]
    simp [rows]

theorem cons_intercalate (c : Char) {xs : List (List Char)} (hne : xs ≠ []) :
    c :: [c].intercalate xs = rows c xs := by
  obtain ⟨x, xs, rfl⟩ := List.exists_cons_of_ne_nil hne
  rw [intercalate_eq_rows]
  rfl

theorem head?_intercalate (c : Char) {x : List Char} (hx : x ≠ []) (xs : List (List Char)) :
    ([c].intercalate (x :: xs)).head? = x.head? := by
  rw [intercalate_eq_rows, List.head?_append_of_ne_nil _ hx]

theorem getLast?_intercalate (c : Char) (xs : List (List Char)) {x : List Char} (hx : x ≠ []) :
    ([c].intercalate (xs ++ [x])).getLast? = x.getLast? := by
  induction xs with
  | nil => simp
  | cons y ys ih =>
    have hy : ys ++ [x] ≠ [] := by simp
    rw [List.cons_append, List.intercalate_cons_of_ne_nil hy, List.getLast?_append, ih]
    obtain ⟨d, hd⟩ := Option.isSome_iff_exists.mp (List.getLast?_isSome.mpr hx)
    rw [hd, Option.some_or]

theorem mem_intercalate (c d : Char) (xs : List (List Char)) (hd : d ≠ c) :
    d ∈ [c].intercalate xs ↔ ∃ x ∈ xs, d ∈ x := by
  cases xs with
  | nil => simp
  | cons x xs => simp [intercalate_eq_rows, rows, hd]

theorem mem_splitOnP {α : Type} (p : α → Bool) (xs : List α) :
    ∀ ys ∈ xs.splitOnP p, ∀ y ∈ ys, p y = false ∧ y ∈ xs := by
  induction xs with
  | nil => simp
  | cons x xs ih =>
    rw [List.splitOnP_cons_eq_if_modifyHead]
    obtain ⟨zs, zss, hz⟩ := List.exists_cons_of_ne_nil (List.splitOnP_ne_nil p xs)
    rw [hz] at ih ⊢
    intro ys hys y hy
    split at hys
    · obtain rfl | hys := List.mem_cons.mp hys
      · cases hy
      · exact ⟨(ih ys hys y hy).1, List.mem_cons_of_mem x (ih ys hys y hy).2⟩
    next hx =>
      obtain rfl | hys := List.mem_cons.mp hys
      · obtain rfl | hy := List.mem_cons.mp hy
        · exact ⟨Bool.eq_false_iff.mpr hx, List.mem_cons_self⟩
        · have h := ih zs List.mem_cons_self y hy
          exact ⟨h.1, List.mem_cons_of_mem x h.2⟩
      · have h := ih ys (List.mem_cons_of_mem zs hys) y hy
        exact ⟨h.1, List.mem_cons_of_mem x h.2⟩

theorem mem_words {cs w : List Char} (hw : w ∈ words cs) : w ≠ [] ∧ ∀ c ∈ w, isBlank c = false := by
  obtain ⟨hw, hne⟩ := List.mem_filter.mp hw
  exact ⟨by simpa using hne, fun c hc => (mem_splitOnP isBlank cs w hw c hc).1⟩

end CronTasks.Text
