import CronTasks.Cron.Field
import CronTasks.Proofs.Text.Separated
import Mathlib.Data.List.DropRight
import Mathlib.Data.List.Infix
import Mathlib.Data.List.TakeWhile
import Mathlib.Data.Option.Basic

namespace CronTasks.Cron

open Text Text.Reader

def isLink (c : Char) : Bool := c == ',' || c == '-' || c == '/'

/-- A text that neither begins nor ends with a link, in which there is no gap. -/
structure Compact (w : List Char) : Prop where
  ne_nil : w ≠ []
  no_gap : ∀ c ∈ w, isGap c = false
  head : ∀ c ∈ w.head?, isLink c = false
  last : ∀ c ∈ w.getLast?, isLink c = false

theorem skipGaps_eq_self {cs : List Char} (h : ∀ c ∈ cs, isGap c = false) : skipGaps cs = cs := by
  cases cs with
  | nil => rfl
  | cons c cs => rw [skipGaps, List.dropWhile_cons_of_neg]; simp [h c List.mem_cons_self]

theorem skipGaps_append {cs : List Char} (h : ∀ c ∈ cs, isGap c = false) (hne : cs ≠ [])
    (tail : List Char) : skipGaps (cs ++ tail) = cs ++ tail := by
  cases cs with
  | nil => exact absurd rfl hne
  | cons c cs =>
    rw [skipGaps, List.cons_append, List.dropWhile_cons_of_neg]
    simp [h c List.mem_cons_self]

/-- What is left of a text with a tail, where a rest is left of the text alone. Gaps of the tail may
have been skipped where nothing else is left. -/
def Left (tail rest rest' : List Char) : Prop :=
  rest' = rest ++ tail ∨ rest = [] ∧ rest' = skipGaps tail

/-- The tails that end a number, a name and a span. -/
structure Closes (tail : List Char) : Prop where
  no_run : ∀ c ∈ tail.head?, c.isDigit = false ∧ c.isAlpha = false
  no_link : ∀ c, c = '-' ∨ c = '/' → c ∉ tail.head? ∧ c ∉ (skipGaps tail).head?

/-- A text without gaps wants nothing of a tail: the tail begins with a comma, or the text does not
end with a link. -/
structure Safe (tail cs : List Char) : Prop where
  no_gap : ∀ c ∈ cs, isGap c = false
  no_link : tail.head? = some ',' ∨ ∀ c ∈ cs.getLast?, isLink c = false

/-- There is something to read before the tail, or nothing could be read in it. -/
def Entry (tail cs : List Char) : Prop := tail.head? = some ',' ∨ cs ≠ []

def Agree {α : Type} (tail cs : List Char) (x y : α × List Char) : Prop :=
  x.1 = y.1 ∧ x.2 <:+ cs ∧ Left tail x.2 y.2

/-- A reader takes from a text with the tail what it takes from the text alone. -/
def Framed {α : Type} (tail : List Char) (r : Reader α) : Prop :=
  ∀ cs, Safe tail cs → Entry tail cs → Option.Rel (Agree tail cs) (r cs) (r (cs ++ tail))

/-- The same of a reader that goes on where another has stopped. -/
def Resumed {α : Type} (tail : List Char) (r : Reader α) : Prop :=
  ∀ cs cs', Safe tail cs → Left tail cs cs' → Option.Rel (Agree tail cs) (r cs) (r cs')

section Readers

variable {α β : Type} {tail cs : List Char}

theorem Safe.suffix {rest : List Char} (h : Safe tail cs) (hs : rest <:+ cs) : Safe tail rest := by
  obtain ⟨front, rfl⟩ := hs
  refine ⟨fun c hc => h.no_gap c (List.mem_append_right front hc), h.no_link.imp id fun hl c hc => ?_⟩
  cases rest with
  | nil => cases hc
  | cons d rest => exact hl c (by simpa [List.getLast?_append] using hc)

theorem Safe.entry {c : Char} (h : Safe tail (c :: cs)) (hc : isLink c = true) : Entry tail cs := by
  refine h.no_link.imp id fun hl => ?_
  rintro rfl
  exact absurd (hl c rfl) (by simp [hc])

theorem rel_bind {γ δ : Type} {R : α → β → Prop} {S : γ → δ → Prop} {o : Option α} {o' : Option β}
    {f : α → Option γ} {g : β → Option δ} (h : Option.Rel R o o')
    (hf : ∀ a b, R a b → Option.Rel S (f a) (g b)) : Option.Rel S (o.bind f) (o'.bind g) := by
  cases h with
  | none => exact .none
  | some hab => exact hf _ _ hab

theorem rel_orElse {R : α → β → Prop} {o p : Option α} {o' p' : Option β}
    (h : Option.Rel R o o') (hp : Option.Rel R p p') : Option.Rel R (o <|> p) (o' <|> p') := by
  cases h with
  | none => exact hp
  | some hab => exact .some hab

theorem Agree.mono {front : List Char} {x y : α × List Char} (h : Agree tail cs x y)
    (hs : cs <:+ front) : Agree tail front x y :=
  ⟨h.1, h.2.1.trans hs, h.2.2⟩

theorem rel_mono {front : List Char} {o o' : Option (α × List Char)}
    (h : Option.Rel (Agree tail cs) o o') (hs : cs <:+ front) :
    Option.Rel (Agree tail front) o o' := by
  cases h with
  | none => exact .none
  | some ha => exact .some (ha.mono hs)

theorem Framed.bind {r : Reader α} {k : α → Reader β} (hr : Framed tail r)
    (hk : ∀ a, Resumed tail (k a)) : Framed tail fun cs => (r cs).bind fun x => k x.1 x.2 := by
  intro cs hs he
  refine rel_bind (hr cs hs he) ?_
  rintro ⟨a, rest⟩ ⟨_, rest'⟩ ⟨rfl, hsuf, hl⟩
  exact rel_mono (hk a rest rest' (hs.suffix hsuf) hl) hsuf

theorem resumed_pure (o : Option α) : Resumed tail fun cs => o.bind fun a => some (a, cs) := by
  intro cs cs' _ hl
  cases o with
  | none => exact .none
  | some a => exact .some ⟨rfl, List.suffix_rfl, hl⟩

theorem resumed_ite (p : Prop) [Decidable p] (a : α) :
    Resumed tail fun cs => if p then some (a, cs) else none := by
  intro cs cs' _ hl
  by_cases hp : p
  · simp only [hp, ↓reduceIte]
    exact .some ⟨rfl, List.suffix_rfl, hl⟩
  · simp only [hp, ↓reduceIte]
    exact .none

theorem Framed.map {r : Reader α} (hr : Framed tail r) (f : α → β) :
    Framed tail fun cs => (r cs).map fun x => (f x.1, x.2) := by
  simp only [Option.map_eq_bind]
  exact hr.bind fun a => resumed_pure (some (f a))

theorem Framed.orElse {r s : Reader α} (hr : Framed tail r) (hs : Framed tail s) :
    Framed tail fun cs => r cs <|> s cs := fun cs hsafe he =>
  rel_orElse (hr cs hsafe he) (hs cs hsafe he)

theorem Framed.linked {r : Reader α} (hr : Framed tail r) {c : Char} (hc : isLink c = true)
    (ht : c ∉ tail.head?) (hs : c ∉ (skipGaps tail).head?) :
    Resumed tail fun cs => (char c cs).bind fun x => r x.2 := by
  have hnone {ds : List Char} (hd : c ∉ ds.head?) : char c ds = none := by
    cases ds with
    | nil => rfl
    | cons d ds => exact if_neg fun h => hd (by simp [h])
  intro cs cs' hsafe hl
  cases cs with
  | nil =>
    have hd : c ∉ cs'.head? := by
      obtain rfl | ⟨-, rfl⟩ := hl
      · exact ht
      · exact hs
    simp only [hnone hd]
    exact .none
  | cons d cs =>
    obtain rfl | ⟨hn, -⟩ := hl
    · simp only [List.cons_append, char]
      split
      next h =>
        subst h
        exact rel_mono (hr cs (hsafe.suffix (List.suffix_cons d cs)) (hsafe.entry hc))
          (List.suffix_cons d cs)
      · exact .none
    · cases hn

theorem run_append (p : Char → Bool) (hp : ∀ c ∈ tail.head?, p c = false) (cs : List Char) :
    run p (cs ++ tail) = (run p cs).map fun x => (x.1, x.2 ++ tail) := by
  have htake : tail.takeWhile p = [] := by
    cases tail with
    | nil => rfl
    | cons c tail => exact List.takeWhile_cons_of_neg (by simp [hp c rfl])
  have hdrop : tail.dropWhile p = tail := by
    cases tail with
    | nil => rfl
    | cons c tail => exact List.dropWhile_cons_of_neg (by simp [hp c rfl])
  have ht : (cs ++ tail).takeWhile p = cs.takeWhile p := by
    induction cs with
    | nil => exact htake
    | cons c cs ih => simp only [List.cons_append, List.takeWhile_cons, ih]
  have hd : (cs ++ tail).dropWhile p = cs.dropWhile p ++ tail := by
    induction cs with
    | nil => exact hdrop
    | cons c cs ih =>
      simp only [List.cons_append, List.dropWhile_cons]
      split <;> simp_all
  simp only [run, ht, hd]
  cases cs.takeWhile p <;> rfl

theorem framed_run (p : Char → Bool) (hp : ∀ c ∈ tail.head?, p c = false) :
    Framed tail (spaced (run p)) := by
  intro cs hs he
  have hskip : skipGaps (cs ++ tail) = cs ++ tail := by
    by_cases hne : cs = []
    · -- what is read is the tail, which begins with a comma and not with a gap
      obtain hc | hc := he
      · obtain ⟨rest, rfl⟩ := List.head?_eq_some_iff.mp hc
        rw [hne]
        rfl
      · exact absurd hne hc
    · exact skipGaps_append hs.no_gap hne tail
  simp only [spaced, hskip, skipGaps_eq_self hs.no_gap, run_append p hp]
  cases hr : run p cs with
  | none => exact .none
  | some x =>
    obtain ⟨ds, rest⟩ := x
    have hsuf : rest <:+ cs := by
      unfold run at hr
      split at hr
      · cases hr
      · cases hr
        exact List.dropWhile_suffix p
    have hrest := (hs.suffix hsuf).no_gap
    refine .some ⟨rfl, ?_, ?_⟩
    · simpa only [skipGaps_eq_self hrest] using hsuf
    · simp only [skipGaps_eq_self hrest]
      by_cases hne : rest = []
      · subst hne
        exact .inr ⟨rfl, rfl⟩
      · exact .inl (skipGaps_append hrest hne tail)

/-- The spans that say where they begin. -/
def ends (f : Field) : Reader Span := fun cs =>
  (pair number cs).map (fun x => (Span.between x.1.1 x.1.2, x.2)) <|>
  (number cs).map (fun x => (Span.single x.1, x.2)) <|>
  (pair (name f) cs).map (fun x => (Span.between x.1.1 x.1.2, x.2))

theorem span_any (f : Field) (cs : List Char) :
    span f ('?' :: cs) = if f.admitsAny then some (.every, cs) else none := by
  cases f <;> rfl

theorem span_eq_ends (f : Field) (cs : List Char)
    (h : ¬ ('*' ∈ cs.head? ∨ '?' ∈ cs.head?)) :
    span f cs = (ends f cs).bind fun x => if x.1.fits f then some x else none := by
  unfold span
  split
  · simp at h
  · simp at h
  · rfl

variable (ht : Closes tail)
include ht

theorem framed_number : Framed tail number :=
  (framed_run Char.isDigit fun c hc => (ht.no_run c hc).1).bind fun ds =>
    resumed_pure (Numeral.read? Numeral.max32 ds)

theorem framed_name (f : Field) : Framed tail (name f) :=
  (framed_run Char.isAlpha fun c hc => (ht.no_run c hc).2).bind fun ls => resumed_pure (f.named? ls)

theorem framed_pair {r : Reader α} (hr : Framed tail r) : Framed tail (pair r) := by
  have hd := ht.no_link '-' (.inl rfl)
  have hsecond (a : α) : Resumed tail fun cs =>
      (char '-' cs).bind fun x => (r x.2).bind fun y => some ((a, y.1), y.2) :=
    (hr.bind fun b => resumed_pure (some (a, b))).linked rfl hd.1 hd.2
  exact hr.bind hsecond

theorem framed_ends (f : Field) : Framed tail (ends f) :=
  ((framed_pair ht (framed_number ht)).map fun x => Span.between x.1 x.2).orElse
    (((framed_number ht).map Span.single).orElse
      ((framed_pair ht (framed_name ht f)).map fun x => Span.between x.1 x.2))

theorem framed_span (f : Field) : Framed tail (span f) := by
  intro cs hs he
  by_cases hc : '*' ∈ cs.head? ∨ '?' ∈ cs.head?
  · cases cs with
    | nil => simp at hc
    | cons c cs =>
      have hagree : Agree tail (c :: cs) (Span.every, cs) (Span.every, cs ++ tail) :=
        ⟨rfl, List.suffix_cons c cs, .inl rfl⟩
      obtain rfl | rfl : c = '*' ∨ c = '?' := by simpa [eq_comm] using hc
      · exact .some hagree
      · rw [List.cons_append, span_any, span_any]
        split
        · exact .some hagree
        · exact .none
  · have hc' : ¬ ('*' ∈ (cs ++ tail).head? ∨ '?' ∈ (cs ++ tail).head?) := by
      obtain hcomma | hne := he
      · cases cs <;> simp_all
      · cases cs <;> simp_all
    rw [span_eq_ends f cs hc, span_eq_ends f _ hc']
    exact (framed_ends ht f).bind (fun s => resumed_ite (s.fits f) s) cs hs he

theorem framed_stepped (f : Field) : Framed tail (stepped f) := by
  have hd := ht.no_link '/' (.inr rfl)
  have hstep (s : Span) : Resumed tail fun cs => (char '/' cs).bind fun x =>
      (number x.2).bind fun y =>
        if 1 ≤ y.1 ∧ y.1 ≤ f.last then some (s.stepped f y.1, y.2) else none := by
    have hn := (framed_number ht).bind fun n => resumed_ite (1 ≤ n ∧ n ≤ f.last) (s.stepped f n)
    exact hn.linked rfl hd.1 hd.2
  exact (framed_span ht f).bind hstep

theorem framed_item (f : Field) : Framed tail (item f) :=
  (framed_stepped ht f).orElse (((framed_span ht f).map fun s => s.plain f).orElse
    ((framed_name ht f).map fun n => (Span.single n).plain f))

end Readers

section Items

variable {α : Type} {tail cs : List Char}

theorem rel_cases {o o' : Option (α × List Char)} (h : Option.Rel (Agree tail cs) o o') :
    (o = none ∧ o' = none) ∨ ∃ a rest rest', o = some (a, rest) ∧ o' = some (a, rest') ∧
      rest <:+ cs ∧ Left tail rest rest' := by
  cases h with
  | none => exact .inl ⟨rfl, rfl⟩
  | @some x y h =>
    obtain ⟨a, rest⟩ := x
    obtain ⟨_, rest'⟩ := y
    obtain ⟨rfl, hs, hl⟩ := h
    exact .inr ⟨a, rest, rest', rfl, rfl, hs, hl⟩

theorem Left.skipGaps_eq {rest rest' : List Char} (h : Left tail rest rest')
    (hg : ∀ c ∈ rest, isGap c = false) :
    skipGaps rest' = if rest = [] then skipGaps tail else rest ++ tail := by
  split
  next hnil =>
    obtain rfl | ⟨-, rfl⟩ := h
    · rw [hnil, List.nil_append]
    · exact List.dropWhile_idempotent isGap tail
  next hne =>
    obtain rfl | ⟨hnil, -⟩ := h
    · exact skipGaps_append hg hne tail
    · exact absurd hnil hne

theorem Left.length_le {rest rest' : List Char} (h : Left tail rest rest') :
    rest'.length ≤ rest.length + tail.length := by
  obtain rfl | ⟨-, rfl⟩ := h
  · exact (List.length_append ..).le
  · exact (List.dropWhile_suffix _).length_le.trans (Nat.le_add_left _ _)

def more (f : Field) : Reader Stride := fun cs => (char ',' cs).bind fun x => item f x.2

theorem more_eq_none (f : Field) (h : ',' ∉ cs.head?) : more f cs = none := by
  cases cs with
  | nil => rfl
  | cons c cs =>
    have hc : c ≠ ',' := fun hc => h (by simp [hc])
    simp only [more, char, hc, ↓reduceIte, Option.bind_none]

theorem whole?_eq_none {r : Reader α} {a : α} {rest : List Char} (h : r cs = some (a, rest))
    (hne : rest ≠ []) : whole? r cs = none := by
  rw [whole?, h]
  cases rest with
  | nil => exact absurd rfl hne
  | cons c rest => rfl

theorem many_eq_nil {r : Reader α} (h : r cs = none) : many r cs = ([], cs) := by
  rw [many, h]

theorem many_eq_cons {r : Reader α} {a : α} {rest : List Char} (h : r cs = some (a, rest))
    (hl : rest.length < cs.length) : many r cs = (a :: (many r rest).1, (many r rest).2) := by
  rw [many, h]
  simp only [hl, ↓reduceIte]

structure Ends (tail : List Char) : Prop extends Closes tail where
  no_comma : ',' ∉ tail.head? ∧ ',' ∉ (skipGaps tail).head?

theorem agree_many (ht : Ends tail) (f : Field) (cs cs' : List Char) (hs : Safe tail cs)
    (hl : Left tail cs cs') : Agree tail cs (many (more f) cs) (many (more f) cs') := by
  induction hn : cs.length using Nat.strong_induction_on generalizing cs cs' with
  | h n ih =>
    by_cases hcomma : ',' ∈ cs.head?
    · obtain ⟨ds, rfl⟩ : ∃ ds, cs = ',' :: ds := by
        cases cs with
        | nil => cases hcomma
        | cons c ds => exact ⟨ds, by simpa using hcomma⟩
      -- the comma is there, and so nothing of the tail has been skipped
      obtain rfl | ⟨hnil, -⟩ := hl
      · have hds : Safe tail ds := hs.suffix (List.suffix_cons ',' ds)
        have hm (es : List Char) : more f (',' :: es) = item f es := rfl
        obtain ⟨h, h'⟩ | ⟨a, rest, rest', h, h', hsuf, hl⟩ :=
          rel_cases (framed_item ht.toCloses f ds hds (hs.entry rfl))
        · rw [List.cons_append, many_eq_nil ((hm _).trans h), many_eq_nil ((hm _).trans h')]
          exact ⟨rfl, List.suffix_rfl, .inl rfl⟩
        · have hlt : rest.length < (',' :: ds).length := Nat.lt_succ_of_le hsuf.length_le
          have hlt' : rest'.length < (',' :: (ds ++ tail)).length := by
            have := hl.length_le
            simp only [List.length_cons, List.length_append] at hlt ⊢
            omega
          rw [List.cons_append, many_eq_cons ((hm _).trans h) hlt,
            many_eq_cons ((hm _).trans h') hlt']
          obtain ⟨he, hsuf', hl'⟩ := ih rest.length (hn ▸ hlt) rest rest' (hds.suffix hsuf) hl rfl
          exact ⟨congrArg (a :: ·) he, hsuf'.trans (hsuf.trans (List.suffix_cons ',' ds)), hl'⟩
      · cases hnil
    · have hcomma' : ',' ∉ cs'.head? := by
        obtain rfl | ⟨-, rfl⟩ := hl
        · cases cs with
          | nil => exact ht.no_comma.1
          | cons c cs => simpa using hcomma
        · exact ht.no_comma.2
      rw [many_eq_nil (more_eq_none f hcomma), many_eq_nil (more_eq_none f hcomma')]
      exact ⟨rfl, List.suffix_rfl, hl⟩

theorem field_eq (f : Field) (cs : List Char) : field f cs =
    (item f (skipGaps cs)).bind fun x =>
      some (x.1 :: (many (more f) x.2).1, skipGaps (many (more f) x.2).2) := by
  unfold field spaced separated
  cases item f (skipGaps cs) <;> rfl

theorem field_append (ht : Ends tail) (f : Field) (hs : Safe tail cs) (hne : cs ≠ []) :
    (field f cs = none ∧ field f (cs ++ tail) = none) ∨
      ∃ as rest, field f cs = some (as, rest) ∧ rest <:+ cs ∧
        field f (cs ++ tail) = some (as, if rest = [] then skipGaps tail else rest ++ tail) := by
  rw [field_eq, field_eq, skipGaps_eq_self hs.no_gap, skipGaps_append hs.no_gap hne]
  obtain ⟨h, h'⟩ | ⟨a, rest, rest', h, h', hsuf, hl⟩ :=
    rel_cases (framed_item ht.toCloses f cs hs (.inr hne))
  · exact .inl (by simp only [h, h', Option.bind_none, and_self])
  · have hrest := hs.suffix hsuf
    obtain ⟨he, hsuf', hl'⟩ := agree_many ht f rest rest' hrest hl
    have hgap := (hrest.suffix hsuf').no_gap
    refine .inr ⟨a :: (many (more f) rest).1, (many (more f) rest).2, ?_, hsuf'.trans hsuf, ?_⟩
    · rw [h, Option.bind_some, skipGaps_eq_self hgap]
    · rw [h', Option.bind_some, ← he, hl'.skipGaps_eq hgap]

theorem closes_comma (tail : List Char) : Closes (',' :: tail) := by
  refine ⟨fun c hc => ?_, fun c hc => ?_⟩
  · obtain rfl : ',' = c := by simpa using hc
    decide
  · obtain rfl | rfl := hc <;> exact ⟨by simp, by simp [skipGaps, isGap]⟩

/-- An item is read up to a comma, as it would be read alone. -/
theorem item_append (f : Field) (hg : ∀ c ∈ cs, isGap c = false) (ht : ∀ c ∈ tail.head?, c = ',') :
    (item f cs = none ∧ item f (cs ++ tail) = none) ∨
      ∃ s rest, item f cs = some (s, rest) ∧ rest <:+ cs ∧
        item f (cs ++ tail) = some (s, rest ++ tail) := by
  cases tail with
  | nil =>
    rw [List.append_nil]
    obtain ⟨h, -⟩ | ⟨s, rest, -, h, -, hsuf, -⟩ :=
      rel_cases (framed_item (closes_comma []) f cs ⟨hg, .inl rfl⟩ (.inl rfl))
    · exact .inl ⟨h, h⟩
    · exact .inr ⟨s, rest, h, hsuf, by rwa [List.append_nil]⟩
  | cons c tail =>
    obtain rfl := ht c rfl
    obtain h | ⟨s, rest, rest', h, h', hsuf, hl⟩ :=
      rel_cases (framed_item (closes_comma tail) f cs ⟨hg, .inl rfl⟩ (.inl rfl))
    · exact .inl h
    · refine .inr ⟨s, rest, h, hsuf, h'.trans ?_⟩
      obtain rfl | ⟨rfl, rfl⟩ := hl <;> rfl

theorem more_append_eq_none (f : Field) {c : Char} {rest : List Char} (hsuf : c :: rest <:+ cs)
    (hc : ',' ∉ cs) (tail : List Char) : more f (c :: rest ++ tail) = none := by
  refine more_eq_none f fun hcomma => hc (hsuf.subset ?_)
  obtain rfl : c = ',' := by simpa using hcomma
  exact List.mem_cons_self

theorem many_rows (f : Field) (xs : List (List Char))
    (hx : ∀ x ∈ xs, (∀ c ∈ x, isGap c = false) ∧ ',' ∉ x) :
    (∃ as, xs.mapM (whole? (item f)) = some as ∧ many (more f) (rows ',' xs) = (as, [])) ∨
      (xs.mapM (whole? (item f)) = none ∧ skipGaps (many (more f) (rows ',' xs)).2 ≠ []) := by
  induction xs with
  | nil => exact .inl ⟨[], rfl, many_eq_nil rfl⟩
  | cons x xs ih =>
    obtain ⟨hg, hc⟩ := hx x List.mem_cons_self
    have hm : more f (rows ',' (x :: xs)) = item f (x ++ rows ',' xs) := rfl
    rw [List.mapM_cons]
    obtain ⟨h, h'⟩ | ⟨s, rest, h, hsuf, h'⟩ := item_append f hg (head?_rows ',' xs)
    · refine .inr ⟨?_, ?_⟩
      · simp [whole?, h]
      · rw [many_eq_nil (hm.trans h')]
        exact List.cons_ne_nil _ _
    · have hlt : (rest ++ rows ',' xs).length < (rows ',' (x :: xs)).length := by
        have := hsuf.length_le
        simp only [rows, List.flatMap_cons, List.length_append, List.length_cons]
        omega
      rw [many_eq_cons (hm.trans h') hlt]
      cases rest with
      | nil =>
        have hw : whole? (item f) x = some s := by simp only [whole?, h]
        rw [hw]
        obtain ⟨as, ha, hr⟩ | ⟨ha, hr⟩ := ih fun y hy => hx y (List.mem_cons_of_mem x hy)
        · exact .inl ⟨s :: as, by rw [ha]; rfl, by rw [List.nil_append, hr]⟩
        · exact .inr ⟨by rw [ha]; rfl, by rwa [List.nil_append]⟩
      | cons c rest =>
        have hw : whole? (item f) x = none := whole?_eq_none h (List.cons_ne_nil c rest)
        rw [hw, many_eq_nil (more_append_eq_none f hsuf hc _)]
        refine .inr ⟨rfl, ?_⟩
        rw [skipGaps_append (fun d hd => hg d (hsuf.subset hd)) (List.cons_ne_nil c rest)]
        exact List.cons_ne_nil _ _

/-- A text without gaps is a field if all that stands between its commas is an item. -/
theorem whole?_field (f : Field) (xs : List (List Char)) (hne : xs ≠ [])
    (hx : ∀ x ∈ xs, (∀ c ∈ x, isGap c = false) ∧ ',' ∉ x) :
    whole? (field f) ([','].intercalate xs) = xs.mapM (whole? (item f)) := by
  obtain ⟨x, xs, rfl⟩ := List.exists_cons_of_ne_nil hne
  obtain ⟨hg, hc⟩ := hx x List.mem_cons_self
  have hrows : skipGaps (x ++ rows ',' xs) = x ++ rows ',' xs := by
    cases x with
    | nil => cases xs <;> rfl
    | cons c x => exact skipGaps_append hg nofun _
  have hfield := field_eq f (x ++ rows ',' xs)
  rw [hrows] at hfield
  rw [intercalate_eq_rows, List.mapM_cons]
  obtain ⟨h, h'⟩ | ⟨s, rest, h, hsuf, h'⟩ := item_append f hg (head?_rows ',' xs)
  · rw [h', Option.bind_none] at hfield
    simp [whole?, h, hfield]
  · rw [h', Option.bind_some] at hfield
    cases rest with
    | nil =>
      have hw : whole? (item f) x = some s := by simp only [whole?, h]
      rw [List.nil_append] at hfield
      rw [hw]
      obtain ⟨as, ha, hr⟩ | ⟨ha, hr⟩ := many_rows f xs fun y hy => hx y (List.mem_cons_of_mem x hy)
      · rw [hr] at hfield
        rw [ha, whole?, hfield]
        rfl
      · rw [ha, whole?_eq_none hfield hr]
        rfl
    | cons c rest =>
      rw [many_eq_nil (more_append_eq_none f hsuf hc _),
        skipGaps_append (fun d hd => hg d (hsuf.subset hd)) nofun] at hfield
      rw [whole?_eq_none h nofun, whole?_eq_none hfield nofun]
      rfl

end Items

end CronTasks.Cron
