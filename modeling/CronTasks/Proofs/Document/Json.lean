import CronTasks.Document.Json

namespace CronTasks.Document.Json

open Text Text.Reader

theorem hexadecimal?_of_lt (n : Nat) (h : n < 32) :
    hexadecimal? ['0', '0', Nat.digitChar (n / 16), Nat.digitChar (n % 16)] = some n := by
  have hall : ∀ m < 32,
      hexadecimal? ['0', '0', Nat.digitChar (m / 16), Nat.digitChar (m % 16)] = some m := by decide
  exact hall n h

theorem units_escaped (c : Char) (us : List Unit) (cs rest : List Char)
    (h : units cs = some (us, rest)) : units (escaped c ++ cs) = some (.char c :: us, rest) := by
  by_cases h₁ : c = '"'
  · subst h₁
    simp [escaped, units, h, escape?]
  by_cases h₂ : c = '\\'
  · subst h₂
    simp [escaped, units, h, escape?]
  by_cases h₃ : c = '\x08'
  · subst h₃
    simp [escaped, units, h, escape?]
  by_cases h₄ : c = '\x0c'
  · subst h₄
    simp [escaped, units, h, escape?]
  by_cases h₅ : c = '\n'
  · subst h₅
    simp [escaped, units, h, escape?]
  by_cases h₆ : c = '\r'
  · subst h₆
    simp [escaped, units, h, escape?]
  by_cases h₇ : c = '\t'
  · subst h₇
    simp [escaped, units, h, escape?]
  by_cases hc : c.toNat < 32
  · have hu : Unit.ofCode c.toNat = .char c := by
      rw [Unit.ofCode, if_neg (by omega), Char.ofNat_toNat]
    simp [escaped, units, h, hc, hexadecimal?_of_lt c.toNat hc, hu]
  · simp [escaped, units, h, h₂, hc]

theorem units_flatMap_escaped (s rest : List Char) :
    units (s.flatMap escaped ++ '"' :: rest) = some (s.map .char, rest) := by
  induction s with
  | nil => rfl
  | cons c s ih =>
    rw [List.flatMap_cons, List.append_assoc]
    exact units_escaped c _ _ rest ih

theorem joined?_map_char (s : List Char) : joined? (s.map .char) = some s := by
  induction s with
  | nil => rfl
  | cons c s ih => simp [joined?, ih]

theorem string_write (s rest : List Char) :
    string (write s ++ rest) = some (some (String.ofList s), rest) := by
  have hw : write s ++ rest = '"' :: (s.flatMap escaped ++ '"' :: rest) := by simp [write]
  simp [string, hw, char, units_flatMap_escaped, joined?_map_char]

theorem skip_write (s rest : List Char) : skip (write s ++ rest) = write s ++ rest := rfl

theorem value_write (n : Nat) (s rest : List Char) :
    value (n + 1) (write s ++ rest) = some (.scalar (.ofText (String.ofList s)), rest) := by
  have h : value (n + 1) (write s ++ rest) = (string (write s ++ rest)).map fun x =>
      (.scalar { Scalar.unreadable with text := x.1 }, x.2) := by
    rw [value, skip_write]
    rfl
  rw [h, string_write]
  rfl

def writtenMembers (ms : List (String × String)) : List Char :=
  [','].intercalate (ms.map fun m => write m.1.toList ++ ':' :: write m.2.toList)

theorem members_last (n : Nat) (m : String × String) (rest : List Char) :
    members (n + 2) (write m.1.toList ++ ':' :: (write m.2.toList ++ '}' :: rest)) =
      some ([(some m.1, .scalar (.ofText m.2))], rest) := by
  rw [members, skip_write, string_write]
  change (value (n + 1) (write m.2.toList ++ '}' :: rest)).bind _ = _
  rw [value_write, String.ofList_toList, String.ofList_toList]
  rfl

theorem members_more (n : Nat) (m : String × String) (cs : List Char) :
    members (n + 2) (write m.1.toList ++ ':' :: (write m.2.toList ++ ',' :: cs)) =
      (members (n + 1) cs).map fun x => ((some m.1, .scalar (.ofText m.2)) :: x.1, x.2) := by
  rw [members, skip_write, string_write]
  change (value (n + 1) (write m.2.toList ++ ',' :: cs)).bind _ = _
  rw [value_write, String.ofList_toList, String.ofList_toList]
  change (members (n + 1) cs).bind _ = _
  cases members (n + 1) cs with
  | none => rfl
  | some x => rfl

theorem members_writtenMembers (ms : List (String × String)) (hm : ms ≠ []) (n : Nat)
    (hn : ms.length < n) (rest : List Char) :
    members n (writtenMembers ms ++ '}' :: rest) =
      some (ms.map fun m => (some m.1, .scalar (.ofText m.2)), rest) := by
  induction ms generalizing n with
  | nil => exact absurd rfl hm
  | cons m ms ih =>
    obtain ⟨n, rfl⟩ : ∃ k, n = k + 2 := ⟨n - 2, by simp at hn; omega⟩
    cases ms with
    | nil =>
      have hw : writtenMembers [m] ++ '}' :: rest =
          write m.1.toList ++ ':' :: (write m.2.toList ++ '}' :: rest) := by
        simp [writtenMembers]
      rw [hw, members_last]
      rfl
    | cons m' ms =>
      have hw : writtenMembers (m :: m' :: ms) ++ '}' :: rest = write m.1.toList ++ ':' ::
          (write m.2.toList ++ ',' :: (writtenMembers (m' :: ms) ++ '}' :: rest)) := by
        simp [writtenMembers, List.intercalate_cons_cons]
      rw [hw, members_more, ih (by simp) (n + 1) (by simp at hn ⊢; omega)]
      rfl

theorem writtenMembers_cons (m : String × String) (ms : List (String × String)) :
    ∃ cs, writtenMembers (m :: ms) = '"' :: cs := by
  cases ms with
  | nil => simp [writtenMembers, write]
  | cons m' ms => simp [writtenMembers, write, List.intercalate_cons_cons]

theorem length_le_writtenMembers (ms : List (String × String)) :
    ms.length ≤ (writtenMembers ms).length := by
  induction ms with
  | nil => simp
  | cons m ms ih =>
    cases ms with
    | nil => simp [writtenMembers, write]
    | cons m' ms =>
      have hw : writtenMembers (m :: m' :: ms) =
          write m.1.toList ++ ':' :: (write m.2.toList ++ ',' :: writtenMembers (m' :: ms)) := by
        simp [writtenMembers, List.intercalate_cons_cons]
      rw [hw]
      simp only [List.length_append, List.length_cons] at ih ⊢
      omega

theorem toList_writeTable (ms : List (String × String)) :
    (writeTable (ms.map fun m => (m.1, quoted m.2))).toList =
      '{' :: (writtenMembers ms ++ ['}']) := by
  simp [writeTable, String.toList_intercalate, quoted, writtenMembers, Function.comp_def]

/-- A table of texts is read as it was before it was written. -/
theorem read?_writeTable (ms : List (String × String)) (hm : ms ≠ []) :
    read? (writeTable (ms.map fun m => (m.1, quoted m.2))).toList =
      some (.table (ms.map fun m => (some m.1, .scalar (.ofText m.2)))) := by
  obtain ⟨m, ms, rfl⟩ := List.exists_cons_of_ne_nil hm
  obtain ⟨cs, hcs⟩ := writtenMembers_cons m ms
  have hlen := length_le_writtenMembers (m :: ms)
  have hmembers : members (cs.length + 1 + 1 + 1) ('"' :: (cs ++ ['}'])) =
      some ((m :: ms).map fun m => (some m.1, .scalar (.ofText m.2)), []) := by
    rw [hcs] at hlen
    have h := members_writtenMembers (m :: ms) hm (cs.length + 1 + 1 + 1)
      (Nat.lt_of_le_of_lt hlen (by simp)) []
    rwa [hcs] at h
  have hvalue : value (cs.length + 1 + 1 + 1 + 1) ('{' :: '"' :: (cs ++ ['}'])) =
      (members (cs.length + 1 + 1 + 1) ('"' :: (cs ++ ['}']))).map
        fun x => (.table x.1, x.2) := by
    rw [value]
    rfl
  rw [toList_writeTable, read?, hcs]
  have hlength : ('{' :: ('"' :: cs ++ ['}'])).length + 1 = cs.length + 1 + 1 + 1 + 1 := by simp
  rw [hlength, List.cons_append, hvalue, hmembers]
  rfl

end CronTasks.Document.Json
