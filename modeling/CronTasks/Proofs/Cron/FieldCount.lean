import CronTasks.Proofs.Cron.Instants
import CronTasks.Proofs.Cron.Renumber

namespace CronTasks.Cron

open Calendar Text Text.Reader

/-- Whether a run of digits or of letters goes on behind a character. -/
def goesOn (c : Char) (rest : List Char) : Bool :=
  c.isDigit && rest.head?.any Char.isDigit || c.isAlpha && rest.head?.any Char.isAlpha

/-- What a character adds to the number of fields, before the rest of a text. A run counts where it
ends. -/
def weight (c : Char) (rest : List Char) : Int :=
  if goesOn c rest then 0
  else if c.isDigit || c.isAlpha || c == '*' || c == '?' then 1
  else if isLink c then -1
  else 0

def fieldCount : List Char → Int
  | [] => 0
  | c :: cs => weight c cs + fieldCount cs

/-- Characters with which no run goes on. -/
def Apart (c : Char) : Prop := c.isDigit = false ∧ c.isAlpha = false

theorem weight_congr (c : Char) {as bs : List Char}
    (hd : as.head?.any Char.isDigit = bs.head?.any Char.isDigit)
    (ha : as.head?.any Char.isAlpha = bs.head?.any Char.isAlpha) : weight c as = weight c bs := by
  have hgo : goesOn c as = goesOn c bs := by simp only [goesOn, hd, ha]
  rw [weight, weight, hgo]

theorem Apart.weight_eq {c : Char} (hc : Apart c) (rest : List Char) : weight c rest = weight c [] := by
  have hgo (cs : List Char) : goesOn c cs = false := by
    simp only [goesOn, hc.1, hc.2, Bool.false_and, Bool.or_self]
  rw [weight, weight, hgo, hgo]

/-- No run goes on over a character that is apart. -/
theorem fieldCount_append_cons (as : List Char) {c : Char} (hc : Apart c) (bs : List Char) :
    fieldCount (as ++ c :: bs) = fieldCount as + (weight c [] + fieldCount bs) := by
  induction as with
  | nil => simp only [List.nil_append, fieldCount, hc.weight_eq bs, zero_add]
  | cons a as ih =>
    have hw : weight a (as ++ c :: bs) = weight a as := by
      cases as with
      | nil => exact weight_congr a (by simp [hc.1]) (by simp [hc.2])
      | cons b as => rfl
    rw [List.cons_append, fieldCount, fieldCount, ih, hw, add_assoc]

theorem apart_of_isLink {c : Char} (hc : isLink c = true) : Apart c := by
  simp only [isLink, Bool.or_eq_true, beq_iff_eq] at hc
  obtain (rfl | rfl) | rfl := hc <;> exact ⟨rfl, rfl⟩

theorem weight_of_isLink {c : Char} (hc : isLink c = true) : weight c [] = -1 := by
  simp only [isLink, Bool.or_eq_true, beq_iff_eq] at hc
  obtain (rfl | rfl) | rfl := hc <;> rfl

theorem fieldCount_append_link {c : Char} (hc : isLink c = true) (as bs : List Char) :
    fieldCount (as ++ c :: bs) = fieldCount as + fieldCount bs - 1 := by
  rw [fieldCount_append_cons as (apart_of_isLink hc), weight_of_isLink hc]
  ring

theorem isAlpha_of_isDigit {c : Char} (hc : c.isDigit = true) : c.isAlpha = false := by
  simp only [Char.isDigit, Char.isAlpha, Char.isUpper, Char.isLower, Bool.and_eq_true,
    decide_eq_true_eq, Bool.or_eq_false_iff, Bool.and_eq_false_iff, decide_eq_false_iff_not] at hc ⊢
  lia

theorem fieldCount_run {p : Char → Bool} (hp : p = Char.isDigit ∨ p = Char.isAlpha) {ds : List Char}
    (hne : ds ≠ []) (hds : ∀ d ∈ ds, p d = true) {rest : List Char}
    (hrest : ∀ c ∈ rest.head?, p c = false) : fieldCount (ds ++ rest) = 1 + fieldCount rest := by
  -- only the last character of a run counts
  induction ds with
  | nil => exact absurd rfl hne
  | cons d ds ih =>
    have hd := hds d List.mem_cons_self
    rw [List.cons_append, fieldCount]
    cases ds with
    | nil =>
      have hend : rest.head?.any p = false := by
        cases rest with
        | nil => rfl
        | cons c rest => exact hrest c rfl
      have hgo : goesOn d rest = false := by
        obtain rfl | rfl := hp
        · simp [goesOn, hend, isAlpha_of_isDigit hd]
        · have hdigit : d.isDigit = false := by
            rw [← Bool.not_eq_true]
            intro h
            rw [isAlpha_of_isDigit h] at hd
            cases hd
          simp [goesOn, hend, hdigit]
      have hrun : (d.isDigit || d.isAlpha) = true := by
        obtain rfl | rfl := hp <;> simp [hd]
      simp [weight, hgo, hrun]
    | cons e ds =>
      have he := hds e (by simp)
      have hgo : goesOn d (e :: ds ++ rest) = true := by
        obtain rfl | rfl := hp <;> simp [goesOn, hd, he]
      rw [ih nofun fun x hx => hds x (List.mem_cons_of_mem d hx), weight, if_pos hgo, zero_add]

theorem fieldCount_intercalate {c : Char} (hc : Apart c) (x : List Char) (xs : List (List Char)) :
    fieldCount ([c].intercalate (x :: xs)) =
      ((x :: xs).map fieldCount).sum + xs.length * weight c [] := by
  induction xs generalizing x with
  | nil => simp
  | cons y ys ih =>
    rw [List.intercalate_cons_cons, List.append_assoc, List.singleton_append,
      fieldCount_append_cons x hc, ih y, List.length_cons]
    simp only [List.map_cons, List.sum_cons]
    push_cast
    ring

theorem fieldCount_intercalate_congr {c : Char} (hc : Apart c) {xs ys : List (List Char)}
    (h : xs.map fieldCount = ys.map fieldCount) :
    fieldCount ([c].intercalate xs) = fieldCount ([c].intercalate ys) := by
  have hl : xs.length = ys.length := by simpa using congrArg List.length h
  cases xs with
  | nil => rw [List.length_eq_zero_iff.mp hl.symm]
  | cons x xs =>
    cases ys with
    | nil => cases hl
    | cons y ys => rw [fieldCount_intercalate hc, fieldCount_intercalate hc, h, Nat.succ.inj hl]

theorem toNat_of_isBlank {c : Char} (hc : isBlank c = true) : c.toNat ≤ 32 ∨ 133 ≤ c.toNat := by
  simp only [isBlank, Bool.or_eq_true, Bool.and_eq_true, decide_eq_true_eq, beq_iff_eq] at hc
  omega

theorem apart_of_isBlank {c : Char} (hc : isBlank c = true) : Apart c := by
  have hn := toNat_of_isBlank hc
  simp only [Apart, Char.isDigit, Char.isAlpha, Char.isUpper, Char.isLower, Bool.and_eq_false_iff,
    Bool.or_eq_false_iff, decide_eq_false_iff_not, ge_iff_le, UInt32.le_iff_toNat_le,
    Char.toNat_val, Char.reduceToNat]
  omega

theorem weight_of_isBlank {c : Char} (hc : isBlank c = true) : weight c [] = 0 := by
  have hne (d : Char) (hd : isBlank d = false) : (c == d) = false := by
    refine beq_false_of_ne ?_
    rintro rfl
    cases hc.symm.trans hd
  obtain ⟨hd, ha⟩ := apart_of_isBlank hc
  simp [weight, goesOn, isLink, hd, ha, hne '*' rfl, hne '?' rfl, hne ',' rfl, hne '-' rfl,
    hne '/' rfl]

theorem fieldCount_append_blank (as : List Char) {b : Char} (hb : isBlank b = true)
    (bs : List Char) : fieldCount (as ++ b :: bs) = fieldCount as + fieldCount bs := by
  rw [fieldCount_append_cons as (apart_of_isBlank hb), weight_of_isBlank hb, zero_add]

theorem fieldCount_dropWhile (p : Char → Bool) (hp : ∀ c, p c = true → isBlank c = true)
    (cs : List Char) : fieldCount (cs.dropWhile p) = fieldCount cs := by
  induction cs with
  | nil => rfl
  | cons c cs ih =>
    by_cases hc : p c = true
    · have hcons := fieldCount_append_blank [] (hp c hc) cs
      rw [List.dropWhile_cons_of_pos hc, ih]
      exact (hcons.trans (zero_add _)).symm
    · rw [List.dropWhile_cons_of_neg hc]

theorem fieldCount_skipGaps (cs : List Char) : fieldCount (skipGaps cs) = fieldCount cs := by
  refine fieldCount_dropWhile isGap (fun c hc => ?_) cs
  simp only [isGap, Bool.or_eq_true, beq_iff_eq] at hc
  obtain ((rfl | rfl) | rfl) | rfl := hc <;> rfl

theorem fieldCount_trim (cs : List Char) : fieldCount (trim cs) = fieldCount cs := by
  have hright (ds : List Char) :
      fieldCount (ds.reverse.dropWhile isBlank).reverse = fieldCount ds := by
    induction ds using List.reverseRecOn with
    | nil => rfl
    | append_singleton ds d ih =>
      rw [List.reverse_append, List.reverse_singleton, List.singleton_append]
      by_cases hd : isBlank d = true
      · rw [List.dropWhile_cons_of_pos hd, ih, fieldCount_append_blank ds hd]
        exact (add_zero _).symm
      · rw [List.dropWhile_cons_of_neg hd, List.reverse_cons, List.reverse_reverse]
  exact (hright _).trans (fieldCount_dropWhile isBlank (fun _ hc => hc) cs)

/-- The words of a text have as many fields as the text. -/
theorem fieldCount_words (cs : List Char) : fieldCount cs = ((words cs).map fieldCount).sum := by
  have hsplit (front cs : List Char) (hf : ∀ c ∈ front, isBlank c = false) :
      fieldCount (front ++ cs) = (((front ++ cs).splitOnP isBlank).map fieldCount).sum := by
    induction cs generalizing front with
    | nil =>
      rw [List.append_nil, List.splitOnP_eq_singleton hf]
      simp
    | cons c cs ih =>
      by_cases hc : isBlank c = true
      · rw [List.splitOnP_append_cons_of_forall_mem hf c hc, List.map_cons, List.sum_cons,
          fieldCount_append_blank front hc]
        exact congrArg _ (ih [] nofun)
      · have hfront : ∀ d ∈ front ++ [c], isBlank d = false :=
          List.forall_mem_append.mpr ⟨hf, by simpa using hc⟩
        simpa using ih (front ++ [c]) hfront
  have hfilter (ws : List (List Char)) :
      ((ws.filter (!·.isEmpty)).map fieldCount).sum = (ws.map fieldCount).sum := by
    induction ws with
    | nil => rfl
    | cons w ws ih =>
      cases w with
      | nil => simpa [fieldCount] using ih
      | cons c w => simpa using ih
  rw [words, hfilter]
  exact hsplit [] cs nofun

/-- A reader takes a number of fields. -/
def Takes {α : Type} (n : Int) (r : Reader α) : Prop :=
  ∀ cs a rest, r cs = some (a, rest) → fieldCount cs = n + fieldCount rest

section Readers

variable {α β : Type} {m n : Int}

theorem Takes.bind {r : Reader α} {k : α → Reader β} (hr : Takes m r) (hk : ∀ a, Takes n (k a)) :
    Takes (m + n) fun cs => (r cs).bind fun x => k x.1 x.2 := by
  intro cs b rest h
  obtain ⟨⟨a, cs'⟩, ha, hb⟩ := Option.bind_eq_some_iff.mp h
  rw [hr cs a cs' ha, hk a cs' b rest hb, add_assoc]

theorem takes_pure (o : Option α) : Takes 0 fun cs => o.bind fun a => some (a, cs) := by
  intro cs a rest h
  obtain ⟨b, -, h⟩ := Option.bind_eq_some_iff.mp h
  cases h
  exact (zero_add _).symm

theorem takes_ite (p : Prop) [Decidable p] (a : α) :
    Takes 0 fun cs => if p then some (a, cs) else none := by
  intro cs b rest h
  split at h
  · cases h
    exact (zero_add _).symm
  · cases h

theorem Takes.map {r : Reader α} (hr : Takes n r) (f : α → β) :
    Takes n fun cs => (r cs).map fun x => (f x.1, x.2) := by
  intro cs b rest h
  obtain ⟨⟨a, cs'⟩, ha, hb⟩ := Option.map_eq_some_iff.mp h
  cases hb
  exact hr cs a cs' ha

theorem Takes.orElse {r s : Reader α} (hr : Takes n r) (hs : Takes n s) :
    Takes n fun cs => r cs <|> s cs := by
  intro cs a rest h
  obtain h | ⟨-, h⟩ := (Option.orElse_eq_some ..).mp h
  · exact hr cs a rest h
  · exact hs cs a rest h

theorem Takes.whole? {r : Reader α} (hr : Takes n r) {cs : List Char} {a : α}
    (h : whole? r cs = some a) : fieldCount cs = n := by
  unfold Reader.whole? at h
  split at h
  next b hb => exact (hr cs b [] hb).trans (add_zero n)
  · cases h

theorem takes_char {c : Char} (hc : isLink c = true) : Takes (-1) (char c) := by
  intro cs a rest h
  cases cs with
  | nil => cases h
  | cons d cs =>
    by_cases hd : d = c
    · rw [char, if_pos hd] at h
      cases h
      rw [hd, fieldCount, (apart_of_isLink hc).weight_eq, weight_of_isLink hc]
    · rw [char, if_neg hd] at h
      cases h

theorem takes_run {p : Char → Bool} (hp : p = Char.isDigit ∨ p = Char.isAlpha) :
    Takes 1 (spaced (run p)) := by
  intro cs a rest h
  obtain ⟨⟨ds, cs'⟩, hrun, h⟩ := Option.bind_eq_some_iff.mp h
  cases h
  rw [← fieldCount_skipGaps cs, fieldCount_skipGaps cs']
  generalize skipGaps cs = es at hrun
  unfold run at hrun
  split at hrun
  · cases hrun
  next hne =>
    cases hrun
    have hstop : ∀ c ∈ (es.dropWhile p).head?, p c = false := by
      intro c hc
      have hnot := List.head?_dropWhile_not p es
      rwa [Option.mem_def.mp hc] at hnot
    have hcount := fieldCount_run hp hne (fun d hd => List.mem_takeWhile_imp hd) hstop
    rwa [List.takeWhile_append_dropWhile] at hcount

theorem takes_number : Takes 1 number :=
  (takes_run (.inl rfl)).bind fun ds => takes_pure (Numeral.read? Numeral.max32 ds)

theorem takes_name (f : Field) : Takes 1 (name f) :=
  (takes_run (.inr rfl)).bind fun ls => takes_pure (f.named? ls)

theorem takes_pair {r : Reader α} (hr : Takes 1 r) : Takes 1 (pair r) := by
  have hsecond (a : α) : Takes 0 fun cs =>
      (char '-' cs).bind fun x => (r x.2).bind fun y => some ((a, y.1), y.2) :=
    (takes_char rfl).bind fun _ => hr.bind fun b => takes_pure (some (a, b))
  exact hr.bind hsecond

theorem takes_ends (f : Field) : Takes 1 (ends f) :=
  ((takes_pair takes_number).map fun x => Span.between x.1 x.2).orElse
    ((takes_number.map Span.single).orElse
      ((takes_pair (takes_name f)).map fun x => Span.between x.1 x.2))

theorem takes_span (f : Field) : Takes 1 (span f) := by
  intro cs s rest h
  by_cases hc : '*' ∈ cs.head? ∨ '?' ∈ cs.head?
  · cases cs with
    | nil => simp at hc
    | cons c cs =>
      have hcount : (c = '*' ∨ c = '?') ∧ rest = cs := by
        obtain rfl | rfl : c = '*' ∨ c = '?' := by simpa [eq_comm] using hc
        · cases h
          exact ⟨.inl rfl, rfl⟩
        · rw [span_any] at h
          split at h
          · cases h
            exact ⟨.inr rfl, rfl⟩
          · cases h
      obtain ⟨rfl | rfl, rfl⟩ := hcount <;> rfl
  · rw [span_eq_ends f cs hc] at h
    exact (takes_ends f).bind (fun s => takes_ite (s.fits f = true) s) cs s rest h

theorem takes_stepped (f : Field) : Takes 1 (stepped f) := by
  have hstep (s : Span) : Takes 0 fun cs => (char '/' cs).bind fun x =>
      (number x.2).bind fun y =>
        if 1 ≤ y.1 ∧ y.1 ≤ f.last then some (s.stepped f y.1, y.2) else none :=
    (takes_char rfl).bind fun _ =>
      takes_number.bind fun n => takes_ite (1 ≤ n ∧ n ≤ f.last) (s.stepped f n)
  exact (takes_span f).bind hstep

theorem takes_item (f : Field) : Takes 1 (item f) :=
  (takes_stepped f).orElse (((takes_span f).map fun s => s.plain f).orElse
    ((takes_name f).map fun n => (Span.single n).plain f))

theorem takes_more (f : Field) : Takes 0 (more f) :=
  (takes_char rfl).bind fun _ => takes_item f

theorem Takes.many {r : Reader α} (hr : Takes 0 r) (cs : List Char) :
    fieldCount (many r cs).2 = fieldCount cs := by
  induction hn : cs.length using Nat.strong_induction_on generalizing cs with
  | h l ih =>
    unfold Reader.many
    split
    · rfl
    next a rest h =>
      have hrest := (hr cs a rest h).trans (zero_add _)
      split
      next hlt => exact (ih rest.length (hn ▸ hlt) rest rfl).trans hrest.symm
      · exact hrest.symm

theorem takes_field (f : Field) : Takes 1 (field f) := by
  intro cs as rest h
  rw [field_eq] at h
  obtain ⟨⟨a, cs'⟩, ha, h⟩ := Option.bind_eq_some_iff.mp h
  cases h
  rw [fieldCount_skipGaps, (takes_more f).many, ← fieldCount_skipGaps cs]
  exact takes_item f _ a cs' ha

end Readers

theorem fieldCount_of_readFields? {cs : List Char} {s : Schedule}
    (h : Schedule.readFields? cs = some s) : fieldCount cs = 6 ∨ fieldCount cs = 7 := by
  simp only [Schedule.readFields?, Option.bind_eq_bind, Option.bind_eq_some_iff] at h
  obtain ⟨x₁, h₁, x₂, h₂, x₃, h₃, x₄, h₄, x₅, h₅, x₆, h₆, h⟩ := h
  have hsix : fieldCount cs = 6 + fieldCount x₆.2 := by
    rw [takes_field .second _ _ _ h₁, takes_field .minute _ _ _ h₂, takes_field .hour _ _ _ h₃,
      takes_field .dayOfMonth _ _ _ h₄, takes_field .month _ _ _ h₅, takes_field .dayOfWeek _ _ _ h₆]
    ring
  split at h
  next hnil =>
    rw [hnil] at hsix
    exact .inl hsix
  next =>
    obtain ⟨years, hy, -⟩ := Option.bind_eq_some_iff.mp h
    rw [(takes_field .year).whole? hy] at hsix
    exact .inr hsix

theorem fieldCount_of_read? {cs : List Char} {s : Schedule} (h : Schedule.read? cs = some s) :
    fieldCount cs = 1 ∨ fieldCount cs = 6 ∨ fieldCount cs = 7 := by
  unfold Schedule.read? at h
  split at h
  next fields hfields =>
    have hone : ∀ x ∈ Schedule.shorthands, fieldCount x.1.toList = 1 := by decide
    obtain ⟨before, after, hmem, -⟩ := List.lookup_eq_some_iff.mp hfields
    have hcount := hone (String.ofList cs, fields) (by simp [hmem])
    exact .inl (by simpa using hcount)
  · exact .inr (fieldCount_of_readFields? h)

theorem fieldCount_of_schedule? {text : String} {s : Schedule}
    (h : Expression.schedule? text = .ok s) :
    fieldCount text.toList = 1 ∨ fieldCount text.toList = 6 ∨ fieldCount text.toList = 7 := by
  rw [← fieldCount_trim]
  unfold Expression.schedule? at h
  split at h
  · cases h
  · split at h
    next hs => exact fieldCount_of_read? hs
    · cases h

namespace Weekday

theorem fieldCount_digits {ds : List Char} (hne : ds ≠ []) (hds : ∀ d ∈ ds, d.isDigit = true) :
    fieldCount ds = 1 := by
  have hend : ∀ c ∈ ([] : List Char).head?, c.isDigit = false := nofun
  simpa [fieldCount] using fieldCount_run (.inl rfl) hne hds hend

theorem fieldCount_numeral {max n : Nat} {cs : List Char} (h : Numeral.read? max cs = some n) :
    fieldCount cs = 1 := by
  obtain ⟨ds, hne, hds, rfl | rfl⟩ := exists_digits_of_read? h
  · exact fieldCount_digits hne hds
  · exact congrArg (0 + ·) (fieldCount_digits hne hds)

theorem Base.fieldCount_eq {cs : List Char} {s : Span} (h : Base cs s) : fieldCount cs = 1 := by
  cases h with
  | every => rfl
  | single hn => exact fieldCount_numeral hn
  | between ha hb =>
    rw [fieldCount_append_link rfl, fieldCount_numeral ha, fieldCount_numeral hb]
    rfl

theorem Written.fieldCount_eq {cs : List Char} {s : Span} {k : Option Nat} (h : Written cs s k) :
    fieldCount cs = 1 := by
  cases h with
  | plain h => exact h.fieldCount_eq
  | stepped h hk =>
    rw [fieldCount_append_link rfl, h.fieldCount_eq, fieldCount_numeral hk]
    rfl

theorem fieldCount_commas {xs : List (List Char)} (hne : xs ≠ []) (hxs : ∀ x ∈ xs, fieldCount x = 1) :
    fieldCount ([','].intercalate xs) = 1 := by
  obtain ⟨x, xs, rfl⟩ := List.exists_cons_of_ne_nil hne
  rw [fieldCount_intercalate (apart_of_isLink rfl), weight_of_isLink rfl,
    List.sum_eq_card_nsmul _ 1 (List.forall_mem_map.mpr hxs)]
  simp

theorem fieldCount_renumberItem {cs cs' : List Char} (h : renumberItem cs = .ok cs') :
    fieldCount cs' = fieldCount cs := by
  cases hl : cs.any Char.isAlpha with
  | true =>
    rw [renumberItem, if_pos hl] at h
    cases h
    rfl
  | false =>
    obtain ⟨s, k, hw, hr, ht⟩ | ⟨-, hr⟩ := renumberItem_cases cs hl
    · cases hr.symm.trans h
      have hdigits : ∀ d ∈ List.range' 1 7, fieldCount (Nat.toDigits 10 d) = 1 := by decide +kernel
      have hone : ∀ x ∈ (days (strideOf s k)).map (Nat.toDigits 10), fieldCount x = 1 :=
        List.forall_mem_map.mpr fun d hd => hdigits d (List.mem_of_mem_filter hd)
      have hne := days_ne_nil _ hw.bounds
      rw [ht, fieldCount_commas (by simpa using hne) hone, hw.fieldCount_eq]
    · cases hr.symm.trans h

/-- Renumbering keeps the number of fields. -/
theorem fieldCount_renumber {cs cs' : List Char} (h : renumber cs = .ok cs') :
    fieldCount cs' = fieldCount cs := by
  have hitems (xs ys : List (List Char)) (h : xs.mapM renumberItem = .ok ys) :
      ys.map fieldCount = xs.map fieldCount := by
    induction xs generalizing ys with
    | nil =>
      cases h
      rfl
    | cons x xs ih =>
      obtain ⟨y, ys, hy, hys, rfl⟩ := mapM_cons_eq_ok h
      rw [List.map_cons, List.map_cons, fieldCount_renumberItem hy, ih ys hys]
  unfold renumber at h
  split at h
  · cases h
    rfl
  · cases h
    rfl
  · cases hm : (cs.splitOn ',').mapM renumberItem with
    | error err =>
      rw [hm] at h
      cases h
    | ok ys =>
      rw [hm] at h
      cases h
      have hcomma : Apart ',' := apart_of_isLink rfl
      have hcount := fieldCount_intercalate_congr hcomma (hitems _ ys hm)
      rwa [List.intercalate_splitOn] at hcount

end Weekday

theorem fieldCount_padded (ws : List (List Char)) :
    fieldCount ([' '].intercalate (['0'] :: (ws ++ [['*']]))) = (ws.map fieldCount).sum + 2 := by
  rw [fieldCount_intercalate (apart_of_isBlank rfl), weight_of_isBlank rfl]
  simp only [List.map_cons, List.map_append, List.map_nil, List.sum_cons, List.sum_append,
    List.sum_nil]
  have hends : fieldCount ['0'] = 1 ∧ fieldCount ['*'] = 1 := by decide
  omega

theorem fieldCount_of_unixSchedule? {text : String} {s : Schedule}
    (hw : (words text.toList).length = 5) (h : Expression.unixSchedule? text = .ok s) :
    fieldCount text.toList = -1 ∨ fieldCount text.toList = 4 ∨ fieldCount text.toList = 5 := by
  unfold Expression.unixSchedule? at h
  split at h
  next minute hour day month weekday hwords =>
    split at h
    · cases h
    next weekday' hrenumber =>
      split at h
      next hs =>
        have hpadded := fieldCount_padded [minute, hour, day, month, weekday']
        have hsum := fieldCount_words text.toList
        have hcount := fieldCount_of_read? hs
        simp only [hwords, List.cons_append, List.nil_append, List.map_cons, List.map_nil,
          List.sum_cons, List.sum_nil, Weekday.fieldCount_renumber hrenumber] at hpadded hsum
        omega
      · cases h
  next hne =>
    generalize words text.toList = ws at hw hne
    match ws, hw with
    | [minute, hour, day, month, weekday], _ => exact absurd rfl (hne minute hour day month weekday)

/-- No text of five words has a schedule both as it stands and in UNIX numbering. -/
theorem unixSchedule?_eq_error_of_schedule? {text : String} {s : Schedule}
    (hw : (words text.toList).length = 5) (h : Expression.schedule? text = .ok s) :
    ∃ fault, Expression.unixSchedule? text = .error fault := by
  cases hu : Expression.unixSchedule? text with
  | error fault => exact ⟨fault, rfl⟩
  | ok t =>
    have hfew := fieldCount_of_unixSchedule? hw hu
    have hmany := fieldCount_of_schedule? h
    omega

theorem unixSchedule?_of_length_ne {text : String} (hw : (words text.toList).length ≠ 5) :
    Expression.unixSchedule? text = Expression.schedule? text := by
  unfold Expression.unixSchedule?
  split
  next hwords => exact absurd (congrArg List.length hwords) hw
  · rfl

theorem schedule?_eq_of_both {text : String} {s t : Schedule}
    (h : Expression.schedule? text = .ok s) (hu : Expression.unixSchedule? text = .ok t) : s = t := by
  by_cases hw : (words text.toList).length = 5
  · obtain ⟨fault, hf⟩ := unixSchedule?_eq_error_of_schedule? hw h
    cases hf.symm.trans hu
  · rw [unixSchedule?_of_length_ne hw, h] at hu
    exact Except.ok.inj hu

namespace Expression

theorem ofSchedule_eq_ok_iff (text : String) (o : Except ExpressionFault Schedule) (e : Expression) :
    ofSchedule text o = .ok e ↔ o = .ok e.schedule ∧ e.text = text := by
  cases o with
  | error fault => exact iff_of_false nofun (fun h => nomatch h.1)
  | ok s =>
    rw [ofSchedule, Except.ok.injEq, Except.ok.injEq]
    constructor
    · rintro rfl
      exact ⟨rfl, rfl⟩
    · rintro ⟨rfl, rfl⟩
      rfl

theorem Accepted.reads {e : Expression} (h : e.Accepted) :
    schedule? e.text = .ok e.schedule ∨ unixSchedule? e.text = .ok e.schedule := by
  obtain ⟨text, h | h⟩ := h
  · obtain ⟨hs, rfl⟩ := (ofSchedule_eq_ok_iff ..).mp h
    exact .inl hs
  · obtain ⟨hs, rfl⟩ := (ofSchedule_eq_ok_iff ..).mp h
    exact .inr hs

/-- A text has one schedule, whichever way it is read. -/
theorem Accepted.schedule_eq {e f : Expression} (he : e.Accepted) (hf : f.Accepted)
    (htext : e.text = f.text) : e.schedule = f.schedule := by
  obtain h | h := he.reads <;> obtain h' | h' := hf.reads <;> rw [htext] at h
  · exact Except.ok.inj (h.symm.trans h')
  · exact schedule?_eq_of_both h h'
  · exact (schedule?_eq_of_both h' h).symm
  · exact Except.ok.inj (h.symm.trans h')

end Expression

/-- Expressions are equal when their texts are, and then they fire alike, whichever way each was read:
after every instant and in every zone they have the same next fire time. A text that can be read both
ways, with six or seven fields and in UNIX numbering, has one schedule, although numbers stand for
other days of the week in the two; five words that can be read the one way are refused the other way. -/
theorem equal_expressions_fire_alike :
    (∀ e f : Expression, e.Accepted → f.Accepted → (e == f) = true →
      ∀ (after : Instant) (zone : Option Zone), e.next? after zone = f.next? after zone) ∧
    (∀ s e f, Expression.parse s = .ok e → Expression.parseUnix s = .ok f →
      e.schedule = f.schedule) ∧
    ∀ s e, (words s.toList).length = 5 → Expression.parse s = .ok e →
      ∃ err, Expression.parseUnix s = .error err := by
  refine ⟨fun e f he hf heq after zone => ?_, fun s e f h h' => ?_, fun s e hw h => ?_⟩
  · have hschedule := he.schedule_eq hf (eq_of_beq (α := String) heq)
    rw [Expression.next?, Expression.next?, hschedule]
  · obtain ⟨-, htext⟩ := (Expression.ofSchedule_eq_ok_iff ..).mp h
    obtain ⟨-, htext'⟩ := (Expression.ofSchedule_eq_ok_iff ..).mp h'
    exact Expression.Accepted.schedule_eq ⟨s, .inl h⟩ ⟨s, .inr h'⟩ (htext.trans htext'.symm)
  · obtain ⟨hs, -⟩ := (Expression.ofSchedule_eq_ok_iff ..).mp h
    obtain ⟨fault, hf⟩ := unixSchedule?_eq_error_of_schedule? hw hs
    exact ⟨_, by rw [Expression.parseUnix, hf]; rfl⟩

/-- Mondays by six fields have the same fire times both ways. Five words may be six fields, and then
they are refused in UNIX numbering. -/
theorem equal_expressions_fire_alike_on_mondays :
    (∃ e f, Expression.parse "0 0 9 * * 2" = .ok e ∧ Expression.parseUnix "0 0 9 * * 2" = .ok f ∧
      (e == f) = true ∧ e.schedule = f.schedule ∧ ∀ after zone, e.next? after zone = f.next? after zone) ∧
    (words "** 1 1 1 1".toList).length = 5 ∧ (∃ e, Expression.parse "** 1 1 1 1" = .ok e) ∧
      ∃ err, Expression.parseUnix "** 1 1 1 1" = .error err := by
  obtain ⟨halike, hboth, hfive⟩ := equal_expressions_fire_alike
  obtain ⟨e, he, htext⟩ : ∃ e, Expression.parse "0 0 9 * * 2" = .ok e ∧ e.text = "0 0 9 * * 2" :=
    exists_ok_of_any (by decide +kernel)
  obtain ⟨f, hf, htext'⟩ : ∃ f, Expression.parseUnix "0 0 9 * * 2" = .ok f ∧ f.text = "0 0 9 * * 2" :=
    exists_ok_of_any (by decide +kernel)
  obtain ⟨stars, hstars, -⟩ : ∃ e, Expression.parse "** 1 1 1 1" = .ok e ∧ e.text = "** 1 1 1 1" :=
    exists_ok_of_any (by decide +kernel)
  have heq : (e == f) = true := (beq_iff_eq (α := String)).mpr (htext.trans htext'.symm)
  have hwords : (words "** 1 1 1 1".toList).length = 5 := by decide +kernel
  exact ⟨⟨e, f, he, hf, heq, hboth _ e f he hf, halike e f ⟨_, .inl he⟩ ⟨_, .inr hf⟩ heq⟩, hwords,
    ⟨stars, hstars⟩, hfive _ stars hwords hstars⟩

end CronTasks.Cron
