import CronTasks.Text.Placeholder
import Mathlib.Data.List.Infix
import Mathlib.Data.List.TakeWhile

namespace CronTasks.Text

/-- A text begins with a name and the closing brace of the name. -/
def Names (cs name rest : List Char) : Prop := cs = name ++ '}' :: rest ∧ '}' ∉ name ∧ name ≠ []

theorem closing?_eq_some_iff (cs name rest : List Char) :
    closing? cs = some (name, rest) ↔ Names cs name rest := by
  constructor
  · intro h
    unfold closing? at h
    split at h
    next c taken d dropped ht hd =>
      cases h
      have hc : d = '}' := by
        have := List.head?_dropWhile_not (· ≠ '}') cs
        rw [hd] at this
        simpa using this
      refine ⟨?_, fun hm => ?_, List.cons_ne_nil c taken⟩
      · rw [← List.takeWhile_append_dropWhile (p := (· ≠ '}')) (l := cs), ht, hd, hc]
      · rw [← ht] at hm
        simpa using List.mem_takeWhile_imp hm
    · cases h
  · rintro ⟨rfl, hname, hne⟩
    have hpos : ∀ c ∈ name, decide (c ≠ '}') = true := fun c hc =>
      decide_eq_true fun he => hname (he ▸ hc)
    have ht : (name ++ '}' :: rest).takeWhile (· ≠ '}') = name := by
      rw [List.takeWhile_append_of_pos hpos]
      simp
    have hd : (name ++ '}' :: rest).dropWhile (· ≠ '}') = '}' :: rest := by
      rw [List.dropWhile_append_of_pos hpos]
      simp
    obtain ⟨c, name, rfl⟩ := List.exists_cons_of_ne_nil hne
    simp only [closing?, ht, hd]

theorem closing?_eq_none_iff (cs : List Char) :
    closing? cs = none ↔ ∀ name rest, ¬ Names cs name rest := by
  simp only [← closing?_eq_some_iff, Option.eq_none_iff_forall_not_mem, Prod.forall, Option.mem_def]

theorem flatMap_expand_pieces (lookup : String → Option String) (cs : List Char)
    (h : ∀ name, .reference name ∈ pieces cs → lookup (String.ofList name) = none) :
    (pieces cs).flatMap (Piece.expand lookup) = cs := by
  fun_induction pieces cs with
  | case1 => rfl
  | case2 cs name rest hc ih =>
    have hn := h name List.mem_cons_self
    have hrest := ih fun name' hm => h name' (List.mem_cons_of_mem _ hm)
    rw [((closing?_eq_some_iff cs name rest).mp hc).1, List.flatMap_cons, hrest]
    simp [Piece.expand, hn]
  | case3 cs hc ih =>
    have hrest := ih fun name hm => h name (List.mem_cons_of_mem _ (List.mem_cons_of_mem _ hm))
    rw [List.flatMap_cons, List.flatMap_cons, hrest]
    rfl
  | case4 c cs hne ih =>
    have hrest := ih fun name hm => h name (List.mem_cons_of_mem _ hm)
    rw [List.flatMap_cons, hrest]
    rfl

theorem substitute_eq_self (lookup : String → Option String) (s : String)
    (h : ∀ name, .reference name ∈ pieces s.toList → lookup (String.ofList name) = none) :
    substitute lookup s = s := by
  rw [substitute, flatMap_expand_pieces lookup s.toList h, String.ofList_toList]

def opening : List Char := ['$', '{']

/-- Cuts of a text from left to right. What stands before the first opening is literal. If a name
follows it, the cut goes on behind the closing brace of the name. If none does, the opening is
literal as well, and the cut goes on right behind it. -/
inductive Cut : List Char → List Piece → Prop
  -- an opening cannot begin in front of another one and end inside of it
  | literal (cs : List Char) : ¬ opening <:+: cs → Cut cs (cs.map .literal)
  | reference (before cs name rest : List Char) (ps : List Piece) : ¬ opening <:+: before →
    Names cs name rest → Cut rest ps →
    Cut (before ++ opening ++ cs) (before.map .literal ++ .reference name :: ps)
  | unnamed (before cs : List Char) (ps : List Piece) : ¬ opening <:+: before →
    (∀ name rest, ¬ Names cs name rest) → Cut cs ps →
    Cut (before ++ opening ++ cs) ((before ++ opening).map .literal ++ ps)

theorem not_opening_cons (c : Char) (before cs : List Char) (h : ¬ opening <:+: before)
    (hc : ∀ rest, c :: (before ++ cs) ≠ opening ++ rest) : ¬ opening <:+: c :: before := by
  rw [List.infix_cons_iff]
  rintro (⟨rest, hr⟩ | h')
  · refine hc (rest ++ cs) ?_
    rw [← List.append_assoc, hr]
    rfl
  · exact h h'

/-- In front of a cut, a character that begins no opening is literal. -/
theorem Cut.cons (c : Char) (cs : List Char) (ps : List Piece) (h : Cut cs ps)
    (hc : ∀ rest, c :: cs ≠ opening ++ rest) : Cut (c :: cs) (.literal c :: ps) := by
  cases h with
  | literal _ hn =>
    refine .literal (c :: cs) (not_opening_cons c cs [] hn fun rest => ?_)
    rw [List.append_nil]
    exact hc rest
  | reference before cs name rest ps hn hname h =>
    refine .reference (c :: before) cs name rest ps ?_ hname h
    refine not_opening_cons c before (opening ++ cs) hn fun rest => ?_
    rw [← List.append_assoc]
    exact hc rest
  | unnamed before cs ps hn hname h =>
    refine .unnamed (c :: before) cs ps ?_ hname h
    refine not_opening_cons c before (opening ++ cs) hn fun rest => ?_
    rw [← List.append_assoc]
    exact hc rest

theorem cut_pieces (cs : List Char) : Cut cs (pieces cs) := by
  fun_induction pieces cs with
  | case1 => exact .literal [] (by simp [opening])
  | case2 cs name rest hc ih =>
    exact .reference [] cs name rest _ (by simp [opening]) ((closing?_eq_some_iff cs name rest).mp hc) ih
  | case3 cs hc ih =>
    exact .unnamed [] cs _ (by simp [opening]) ((closing?_eq_none_iff cs).mp hc) ih
  | case4 c cs hne ih =>
    refine ih.cons c cs _ fun rest he => ?_
    obtain ⟨hc, hcs⟩ := List.cons.inj he
    exact hne rest hc hcs

theorem pieces_cons (c : Char) (cs : List Char) (hc : ∀ rest, c :: cs ≠ opening ++ rest) :
    pieces (c :: cs) = .literal c :: pieces cs := by
  rw [pieces]
  rintro rest rfl rfl
  exact hc rest rfl

theorem pieces_opening (cs : List Char) : pieces (opening ++ cs) =
    match closing? cs with
    | some (name, rest) => .reference name :: pieces rest
    | none => opening.map .literal ++ pieces cs := by
  rw [opening, List.cons_append, List.cons_append, List.nil_append, pieces]
  split
  next name rest h => rw [h]
  next h =>
    rw [h]
    rfl

theorem pieces_append (before cs : List Char) (h : ¬ opening <:+: before) (hcs : cs.head? ≠ some '{') :
    pieces (before ++ cs) = before.map .literal ++ pieces cs := by
  induction before with
  | nil => rfl
  | cons c before ih =>
    rw [List.infix_cons_iff, not_or] at h
    rw [List.cons_append, pieces_cons, ih h.2]
    · rfl
    · intro rest he
      obtain ⟨rfl, hbrace⟩ := List.cons.inj he
      -- an opening across the seam would have its brace behind it
      cases before with
      | nil => exact hcs (congrArg List.head? hbrace)
      | cons d before =>
        obtain ⟨rfl, -⟩ := List.cons.inj hbrace
        exact h.1 ⟨before, rfl⟩

theorem Cut.eq_pieces {cs : List Char} {ps : List Piece} (h : Cut cs ps) : ps = pieces cs := by
  induction h with
  | literal cs hn =>
    have h := pieces_append cs [] hn (by simp)
    rw [List.append_nil, pieces, List.append_nil] at h
    exact h.symm
  | reference before cs name rest ps hn hname _ ih =>
    rw [List.append_assoc, pieces_append before _ hn (by simp [opening]), pieces_opening,
      (closing?_eq_some_iff cs name rest).mpr hname, ih]
  | unnamed before cs ps hn hname _ ih =>
    rw [List.append_assoc, pieces_append before _ hn (by simp [opening]), pieces_opening,
      (closing?_eq_none_iff cs).mpr hname, ih, List.map_append, List.append_assoc]

theorem cut_iff (cs : List Char) (ps : List Piece) : Cut cs ps ↔ ps = pieces cs := by
  constructor
  · exact Cut.eq_pieces
  · rintro rfl
    exact cut_pieces cs

/-- Every text has one cut, whatever its names stand for. To substitute is to put the pieces of that
cut together, with the value of each name in the place of its reference or, where it has none, the
reference as it was written. Where no name has a value, nothing is changed. -/
theorem substitution_cuts_once (s : String) :
    ∃ ps, (∀ qs, Cut s.toList qs ↔ qs = ps) ∧
      (∀ lookup, (substitute lookup s).toList = ps.flatMap (Piece.expand lookup)) ∧
      substitute (fun _ => none) s = s := by
  refine ⟨pieces s.toList, cut_iff s.toList, fun lookup => ?_, ?_⟩
  · rw [substitute, String.toList_ofList]
  · exact substitute_eq_self _ s fun _ _ => rfl

example :
    substitute (fun name => if name = "A" then some "$\x7bB\x7d" else if name = "B" then some "b" else none)
      "$\x7bA\x7d$\x7bB\x7d$\x7b\x7d$\x7b$\x7bB\x7d" = "$\x7bB\x7db$\x7b\x7d$\x7b$\x7bB\x7d" := by
  cbv

end CronTasks.Text
