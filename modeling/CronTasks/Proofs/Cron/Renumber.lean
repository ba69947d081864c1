import CronTasks.Cron.Expression
import CronTasks.Proofs.Cron.Weekday
import Mathlib.Data.Set.Image
import Mathlib.Tactic.SplitIfs

namespace CronTasks.Cron.Weekday

open Text Text.Reader

/-- The written forms of the UNIX numbers that an item is about: all, one, or those between two. -/
inductive Base : List Char → Span → Prop
  | every : Base ['*'] .every
  | single {cs : List Char} {n : Nat} (hn : Numeral.read? Numeral.max32 cs = some n) (h7 : n ≤ 7) :
    Base cs (.single n)
  | between {low high : List Char} {a b : Nat} (ha : Numeral.read? Numeral.max32 low = some a)
    (hb : Numeral.read? Numeral.max32 high = some b) (hab : a ≤ b) (h7 : b ≤ 7) :
    Base (low ++ '-' :: high) (.between a b)

/-- The written forms of an item, which may have a step after a slash. -/
inductive Written : List Char → Span → Option Nat → Prop
  | plain {cs : List Char} {s : Span} (h : Base cs s) : Written cs s none
  | stepped {cs ds : List Char} {s : Span} {k : Nat} (h : Base cs s)
    (hk : Numeral.read? Numeral.max64 ds = some k) (hpos : 1 ≤ k) : Written (cs ++ '/' :: ds) s (some k)

/-- The UNIX numbers that an item selects. With a step, a number goes on up to 6; 7 stays alone. -/
def unixDays : Span → Option Nat → Set Nat
  | .every, k => {v | v ≤ 6 ∧ k.getD 1 ∣ v}
  | .single n, none => {n}
  | .single n, some k => if n = 7 then {7} else {v | n ≤ v ∧ v ≤ 6 ∧ k ∣ v - n}
  | .between a b, k => {v | a ≤ v ∧ v ≤ b ∧ k.getD 1 ∣ v - a}

theorem chars_of_readFrom (max n m : Nat) (cs : List Char)
    (h : Numeral.readFrom max n cs = .ok m) : ∀ c ∈ cs, c.isDigit = true := by
  induction cs generalizing n with
  | nil => exact nofun
  | cons c cs ih =>
    unfold Numeral.readFrom at h
    split at h
    next hc =>
      split at h
      · exact List.forall_mem_cons.mpr ⟨hc, ih _ h⟩
      · cases h
    · cases h

theorem exists_digits_of_read? {max n : Nat} {cs : List Char} (h : Numeral.read? max cs = some n) :
    ∃ ds, ds ≠ [] ∧ (∀ c ∈ ds, c.isDigit = true) ∧ (cs = ds ∨ cs = '+' :: ds) := by
  have hok : Numeral.read max cs = .ok n := by
    unfold Numeral.read? at h
    cases hr : Numeral.read max cs with
    | error err => simp [hr, Except.toOption] at h
    | ok m => simpa [hr, Except.toOption] using h
  unfold Numeral.read at hok
  split at hok
  · cases hok
  · cases hok
  next ds hne => exact ⟨ds, by simpa using hne, chars_of_readFrom _ _ _ _ hok, .inr rfl⟩
  next ds hne _ _ => exact ⟨cs, hne, chars_of_readFrom _ _ _ _ hok, .inl rfl⟩

theorem chars_of_read? {max n : Nat} {cs : List Char} (h : Numeral.read? max cs = some n) :
    ∀ c ∈ cs, c.isDigit = true ∨ c = '+' := by
  obtain ⟨ds, -, hds, rfl | rfl⟩ := exists_digits_of_read? h
  · exact fun c hc => .inl (hds c hc)
  · exact List.forall_mem_cons.mpr ⟨.inr rfl, fun c hc => .inl (hds c hc)⟩

theorem notMem_of_read? {max n : Nat} {cs : List Char} (h : Numeral.read? max cs = some n) {c : Char}
    (hd : c.isDigit = false) (hp : c ≠ '+') : c ∉ cs := by
  intro hc
  obtain hdigit | rfl := chars_of_read? h c hc
  · rw [hd] at hdigit
    cases hdigit
  · exact hp rfl

theorem span_cases (c : Char) (cs : List Char) :
    (c ∉ cs ∧ cs.span (· ≠ c) = (cs, [])) ∨
      ∃ front rest, cs = front ++ c :: rest ∧ c ∉ front ∧ cs.span (· ≠ c) = (front, c :: rest) := by
  rw [List.span_eq_takeWhile_dropWhile]
  induction cs with
  | nil => exact .inl ⟨nofun, rfl⟩
  | cons d cs ih =>
    by_cases hd : d = c
    · subst hd
      exact .inr ⟨[], cs, rfl, nofun, by simp⟩
    · simp only [List.takeWhile_cons, List.dropWhile_cons, ne_eq, hd, not_false_eq_true,
        decide_true, ↓reduceIte]
      obtain ⟨hn, h⟩ | ⟨front, rest, rfl, hn, h⟩ := ih
      · obtain ⟨h₁, h₂⟩ := Prod.mk.inj h
        exact .inl ⟨by simp [Ne.symm hd, hn], by rw [h₁, h₂]⟩
      · obtain ⟨h₁, h₂⟩ := Prod.mk.inj h
        exact .inr ⟨d :: front, rest, rfl, by simp [Ne.symm hd, hn], by rw [h₁, h₂]⟩

theorem span_append {c : Char} {front : List Char} (h : c ∉ front) (rest : List Char) :
    (front ++ c :: rest).span (· ≠ c) = (front, c :: rest) := by
  have hpos : ∀ d ∈ front, decide (d ≠ c) = true := by
    intro d hd
    simpa using ne_of_mem_of_not_mem hd h
  rw [List.span_eq_takeWhile_dropWhile, List.takeWhile_append_of_pos hpos,
    List.dropWhile_append_of_pos hpos]
  simp

theorem span_of_notMem {c : Char} {cs : List Char} (h : c ∉ cs) : cs.span (· ≠ c) = (cs, []) := by
  obtain ⟨-, hs⟩ | ⟨front, rest, rfl, -, -⟩ := span_cases c cs
  · exact hs
  · exact absurd (by simp) h

theorem Base.slash_notMem {cs : List Char} {s : Span} (h : Base cs s) : '/' ∉ cs := by
  cases h with
  | every => decide
  | single hn => exact notMem_of_read? hn rfl (by decide)
  | between ha hb =>
    simp [notMem_of_read? ha (c := '/') rfl (by decide), notMem_of_read? hb (c := '/') rfl (by decide)]

/-- The least and the greatest number of a span, which a step opens up to 6. -/
def limits (step : Option Nat) : Span → Nat × Nat
  | .every => (0, 6)
  | .single n => (n, if step.isSome then max n 6 else n)
  | .between a b => (a, b)

theorem base?_eq_some_iff (step : Option Nat) (cs : List Char) (x : Nat × Nat) :
    base? step cs = some x ∧ x.1 ≤ x.2 ∧ x.2 ≤ 7 ↔ ∃ s, Base cs s ∧ x = limits step s := by
  constructor
  · rintro ⟨h, hle, h7⟩
    unfold base? at h
    split at h
    · cases h
      exact ⟨.every, .every, rfl⟩
    · split at h
      next low c high hs =>
        simp only [Option.bind_eq_bind, Option.bind_eq_some_iff] at h
        obtain ⟨a, ha, b, hb, h⟩ := h
        cases h
        obtain ⟨-, hs'⟩ | ⟨front, rest, rfl, -, hs'⟩ := span_cases '-' cs
        · cases hs.symm.trans hs'
        · cases hs.symm.trans hs'
          exact ⟨.between a b, .between ha hb hle h7, rfl⟩
      next single hs =>
        simp only [Option.bind_eq_bind, Option.bind_eq_some_iff] at h
        obtain ⟨n, hn, h⟩ := h
        cases h
        obtain ⟨-, hs'⟩ | ⟨front, rest, -, -, hs'⟩ := span_cases '-' cs
        · cases hs.symm.trans hs'
          exact ⟨.single n, .single hn (hle.trans h7), rfl⟩
        · cases hs.symm.trans hs'
  · rintro ⟨s, hs, rfl⟩
    cases hs with
    | every => exact ⟨rfl, Nat.zero_le 6, by simp [limits]⟩
    | @single cs n hn h7 =>
      have hne : cs ≠ ['*'] := by
        rintro rfl
        exact notMem_of_read? hn (c := '*') rfl (by decide) List.mem_cons_self
      unfold base?
      split
      · exact absurd rfl hne
      · rw [span_of_notMem (notMem_of_read? hn rfl (by decide))]
        refine ⟨by simp [hn, limits], ?_⟩
        simp only [limits]
        split_ifs <;> omega
    | @between low high a b ha hb hab h7 =>
      have hne : low ++ '-' :: high ≠ ['*'] := fun h => by simpa using congrArg ('-' ∈ ·) h
      unfold base?
      split
      next heq => exact absurd heq hne
      · rw [span_append (notMem_of_read? ha rfl (by decide))]
        exact ⟨by simp [ha, hb, limits], hab, h7⟩

def strideOf (s : Span) (step : Option Nat) : Stride :=
  ⟨(limits step s).1, (limits step s).2, step.getD 1⟩

theorem stride?_eq_some_iff (cs : List Char) (t : Stride) :
    stride? cs = some t ↔ ∃ s k, Written cs s k ∧ t = strideOf s k := by
  have hbase (step : Option Nat) (base : List Char) :
      ((base? step base).bind fun x =>
        if x.1 ≤ x.2 ∧ x.2 ≤ 7 then some (⟨x.1, x.2, step.getD 1⟩ : Stride) else none) = some t ↔
      ∃ s, Base base s ∧ t = strideOf s step := by
    rw [Option.bind_eq_some_iff]
    constructor
    · rintro ⟨x, hx, h⟩
      split at h
      next hle =>
        cases h
        obtain ⟨s, hs, rfl⟩ := (base?_eq_some_iff step base x).mp ⟨hx, hle⟩
        exact ⟨s, hs, rfl⟩
      · cases h
    · rintro ⟨s, hs, rfl⟩
      obtain ⟨hx, hle⟩ := (base?_eq_some_iff step base _).mpr ⟨s, hs, rfl⟩
      exact ⟨_, hx, if_pos hle⟩
  unfold stride?
  constructor
  · intro h
    obtain ⟨-, hs⟩ | ⟨front, rest, rfl, -, hs⟩ := span_cases '/' cs
    · rw [hs] at h
      obtain ⟨s, hb, rfl⟩ := (hbase none cs).mp h
      exact ⟨s, none, .plain hb, rfl⟩
    · rw [hs] at h
      obtain ⟨k, hk, h⟩ := Option.bind_eq_some_iff.mp h
      split at h
      next hpos =>
        obtain ⟨s, hb, rfl⟩ := (hbase (some k) front).mp h
        exact ⟨s, some k, .stepped hb hk hpos, rfl⟩
      · cases h
  · rintro ⟨s, step, h, rfl⟩
    cases h with
    | plain h =>
      rw [span_of_notMem h.slash_notMem]
      exact (hbase none cs).mpr ⟨s, h, rfl⟩
    | @stepped front ds _ k h hk hpos =>
      rw [span_append h.slash_notMem]
      refine Option.bind_eq_some_iff.mpr ⟨k, hk, ?_⟩
      rw [if_pos (Nat.lt_of_succ_le hpos)]
      exact (hbase (some k) front).mpr ⟨s, h, rfl⟩

theorem Written.bounds {cs : List Char} {s : Span} {k : Option Nat} (h : Written cs s k) :
    (strideOf s k).first ≤ (strideOf s k).last ∧ (strideOf s k).last ≤ 7 :=
  stride?_bounds cs _ ((stride?_eq_some_iff cs _).mpr ⟨s, k, h, rfl⟩)

theorem selects_iff (t : Stride) (v : Nat) :
    t.selects v = true ↔ t.first ≤ v ∧ v ≤ t.last ∧ t.step ∣ v - t.first := by
  simp only [Stride.selects, Bool.and_eq_true, decide_eq_true_eq, beq_iff_eq,
    Nat.dvd_iff_mod_eq_zero, and_assoc]

theorem Written.mem_unixDays {cs : List Char} {s : Span} {k : Option Nat} (h : Written cs s k)
    (v : Nat) : v ∈ unixDays s k ↔ (strideOf s k).selects v = true := by
  have hb := h.bounds
  rw [selects_iff]
  simp only [strideOf] at hb ⊢
  cases s with
  | every => simp [unixDays, limits]
  | between a b => rfl
  | single n =>
    cases k with
    | none =>
      simp only [unixDays, limits, Set.mem_singleton_iff, Option.isSome_none, Bool.false_eq_true,
        ↓reduceIte, Option.getD_none, Nat.one_dvd, and_true]
      omega
    | some k =>
      simp only [limits, Option.isSome_some, ↓reduceIte] at hb
      simp only [unixDays, limits, Option.isSome_some, ↓reduceIte, Option.getD_some]
      by_cases h7 : n = 7
      · -- from 7 on there is only 7
        subst h7
        constructor
        · rintro rfl
          exact ⟨le_rfl, by decide, by simp⟩
        · rintro ⟨hle, hge, -⟩
          exact le_antisymm hge hle
      · have hmax : max n 6 = 6 := by omega
        rw [if_neg h7, hmax]
        rfl

theorem mem_days_iff (t : Stride) (h7 : t.last ≤ 7) (d : Nat) :
    d ∈ days t ↔ ∃ v, t.selects v = true ∧ v % 7 + 1 = d := by
  simp only [days, List.mem_filter, List.mem_range'_1, List.any_eq_true, List.mem_range,
    Bool.and_eq_true, beq_iff_eq, ofUnix]
  constructor
  · rintro ⟨-, v, -, h⟩
    exact ⟨v, h⟩
  · rintro ⟨v, hv, rfl⟩
    have hle := ((selects_iff t v).mp hv).2.1
    exact ⟨by omega, v, by omega, hv, rfl⟩

section Items

variable {α β ε : Type} {f : α → Except ε β}

theorem exists_mapM_eq_ok_iff (as : List α) :
    (∃ bs, as.mapM f = .ok bs) ↔ ∀ a ∈ as, ∃ b, f a = .ok b := by
  induction as with
  | nil => exact iff_of_true ⟨[], rfl⟩ nofun
  | cons a as ih =>
    rw [List.forall_mem_cons, ← ih]
    constructor
    · rintro ⟨_, h⟩
      obtain ⟨b, bs, hb, hbs, -⟩ := mapM_cons_eq_ok h
      exact ⟨⟨b, hb⟩, bs, hbs⟩
    · rintro ⟨⟨b, hb⟩, bs, hbs⟩
      exact ⟨b :: bs, by rw [List.mapM_cons, hb, hbs]; rfl⟩

theorem mapM_eq_error_iff (as : List α) (err : ε) : as.mapM f = .error err ↔
    ∃ before a after, as = before ++ a :: after ∧ (∀ b ∈ before, ∃ c, f b = .ok c) ∧
      f a = .error err := by
  induction as with
  | nil => exact iff_of_false nofun (by simp)
  | cons a as ih =>
    rw [List.mapM_cons]
    cases ha : f a with
    | error e =>
      constructor
      · intro h
        cases h
        exact ⟨[], a, as, rfl, nofun, ha⟩
      · rintro ⟨_ | ⟨b, before⟩, c, after, heq, hok, hc⟩
        · obtain ⟨rfl, -⟩ := List.cons.inj heq
          cases ha.symm.trans hc
          rfl
        · obtain ⟨rfl, -⟩ := List.cons.inj heq
          obtain ⟨_, hb⟩ := hok a List.mem_cons_self
          cases ha.symm.trans hb
    | ok b =>
      have hcons : (do let bs ← as.mapM f; pure (b :: bs)) = .error err ↔ as.mapM f = .error err := by
        cases as.mapM f <;> simp [pure, Except.pure, bind, Except.bind]
      refine hcons.trans (ih.trans ⟨?_, ?_⟩)
      · rintro ⟨before, c, after, rfl, hok, hc⟩
        exact ⟨a :: before, c, after, rfl, List.forall_mem_cons.mpr ⟨⟨b, ha⟩, hok⟩, hc⟩
      · rintro ⟨_ | ⟨d, before⟩, c, after, heq, hok, hc⟩
        · obtain ⟨rfl, -⟩ := List.cons.inj heq
          cases ha.symm.trans hc
        · obtain ⟨rfl, rfl⟩ := List.cons.inj heq
          exact ⟨before, c, after, rfl, fun x hx => hok x (List.mem_cons_of_mem a hx), hc⟩

end Items

/-- An item without letters is renumbered if it is a written form, and it is at fault otherwise. -/
theorem renumberItem_cases (cs : List Char) (hl : cs.any Char.isAlpha = false) :
    (∃ s k, Written cs s k ∧ renumberItem cs = .ok ([','].intercalate (texts cs)) ∧
      texts cs = (days (strideOf s k)).map (Nat.toDigits 10)) ∨
    (¬ ∃ s k, Written cs s k) ∧ renumberItem cs = .error cs := by
  simp only [renumberItem, texts, hl, Bool.false_eq_true, ↓reduceIte]
  cases ht : stride? cs with
  | none =>
    refine .inr ⟨?_, rfl⟩
    rintro ⟨s, k, h⟩
    cases ht.symm.trans ((stride?_eq_some_iff cs _).mpr ⟨s, k, h, rfl⟩)
  | some t =>
    obtain ⟨s, k, h, rfl⟩ := (stride?_eq_some_iff cs t).mp ht
    exact .inl ⟨s, k, h, rfl, rfl⟩

theorem renumberItem_eq_ok_iff (cs : List Char) (hl : cs.any Char.isAlpha = false) :
    (∃ cs', renumberItem cs = .ok cs') ↔ ∃ s k, Written cs s k := by
  obtain ⟨s, k, h, hr, -⟩ | ⟨hn, hr⟩ := renumberItem_cases cs hl
  · exact iff_of_true ⟨_, hr⟩ ⟨s, k, h⟩
  · refine iff_of_false ?_ hn
    rintro ⟨cs', h⟩
    cases hr.symm.trans h

theorem renumberItem_eq_error_iff (cs x : List Char) (hl : cs.any Char.isAlpha = false) :
    renumberItem cs = .error x ↔ cs = x ∧ ¬ ∃ s k, Written cs s k := by
  obtain ⟨s, k, h, hr, -⟩ | ⟨hn, hr⟩ := renumberItem_cases cs hl
  · rw [hr]
    exact iff_of_false nofun fun hx => hx.2 ⟨s, k, h⟩
  · rw [hr, Except.error.injEq]
    exact (and_iff_left hn).symm

theorem exists_days_of_items (xs : List (List Char)) (hl : ∀ x ∈ xs, x.any Char.isAlpha = false)
    (hw : ∀ x ∈ xs, ∃ s k, Written x s k) :
    ∃ ds : List Nat, xs.flatMap texts = ds.map (Nat.toDigits 10) ∧
      ∀ d, d ∈ ds ↔ ∃ v, (∃ x ∈ xs, ∃ s k, Written x s k ∧ v ∈ unixDays s k) ∧ v % 7 + 1 = d := by
  induction xs with
  | nil => exact ⟨[], rfl, by simp⟩
  | cons x xs ih =>
    obtain ⟨hx, hxs⟩ := List.forall_mem_cons.mp hw
    obtain ⟨hlx, hlxs⟩ := List.forall_mem_cons.mp hl
    obtain ⟨ds, hds, hmem⟩ := ih hlxs hxs
    obtain ⟨s, k, h, -, ht⟩ | ⟨hn, -⟩ := renumberItem_cases x hlx
    · refine ⟨days (strideOf s k) ++ ds, by rw [List.flatMap_cons, ht, hds, List.map_append], ?_⟩
      intro d
      rw [List.mem_append, hmem, mem_days_iff _ h.bounds.2]
      -- an item is written in one way, as far as its days are concerned
      have hone (v : Nat) : (∃ s' k', Written x s' k' ∧ v ∈ unixDays s' k') ↔
          (strideOf s k).selects v = true := by
        constructor
        · rintro ⟨s', k', h', hv⟩
          have he := (stride?_eq_some_iff x _).mpr ⟨s, k, h, rfl⟩
          have he' := (stride?_eq_some_iff x _).mpr ⟨s', k', h', rfl⟩
          rw [Option.some.inj (he.symm.trans he')]
          exact (h'.mem_unixDays v).mp hv
        · exact fun hv => ⟨s, k, h, (h.mem_unixDays v).mpr hv⟩
      simp only [List.mem_cons, or_and_right, exists_or, exists_eq_left, hone]
    · exact absurd hx hn

/-- A list of days of the week, each written in decimal digits, is a field of these days. -/
theorem whole?_field_digits (ds : List Nat) (hne : ds ≠ []) (hds : ∀ d ∈ ds, d ∈ List.range' 1 7) :
    ∃ ss, whole? (field .dayOfWeek) ([','].intercalate (ds.map (Nat.toDigits 10))) = some ss ∧
      ∀ d, d ∈ Field.dayOfWeek.values ss ↔ d ∈ ds := by
  have hplain : ∀ t ∈ ds.map (Nat.toDigits 10), (∀ c ∈ t, isGap c = false) ∧ ',' ∉ t := by
    intro t ht
    obtain ⟨d, hd, rfl⟩ := List.mem_map.mp ht
    have hchars := (digits_spec d (hds d hd)).1.2
    exact ⟨fun c hc => (hchars c hc).1, fun hc => absurd (hchars ',' hc).2 nofun⟩
  refine ⟨ds.map fun d => ⟨d, d, 1⟩, ?_, fun d => ?_⟩
  · rw [whole?_field .dayOfWeek _ (by simpa using hne) hplain, mapM_digits ds hds]
  · have hone (e : Nat) : Stride.selects ⟨e, e, 1⟩ d = true ↔ e = d := by
      rw [selects_iff]
      simp only [Nat.one_dvd, and_true]
      omega
    simp only [Field.mem_values, List.mem_map, exists_exists_and_eq_and, hone, exists_eq_right,
      and_iff_right_iff_imp]
    intro hd
    have := List.mem_range'_1.mp (hds d hd)
    simp only [Field.first, Field.last]
    omega

section Letterless

variable {cs : List Char} (hletters : ∀ c ∈ cs, c.isAlpha = false)

include hletters in
theorem isAlpha_of_mem_splitOn : ∀ x ∈ cs.splitOn ',', x.any Char.isAlpha = false := by
  intro x hx
  rw [List.splitOn_eq_splitOnP] at hx
  rw [List.any_eq_false]
  intro c hc
  simp [hletters c (mem_splitOnP _ cs x hx c hc).2]

variable (hstar : cs ≠ ['*']) (hany : cs ≠ ['?'])
include hstar hany

theorem renumber_eq :
    renumber cs = ((cs.splitOn ',').mapM renumberItem).map ([','].intercalate ·) := by
  unfold renumber
  split
  · exact absurd rfl hstar
  · exact absurd rfl hany
  · cases (cs.splitOn ',').mapM renumberItem <;> rfl

include hletters

theorem exists_renumber_eq_ok_iff :
    (∃ cs', renumber cs = .ok cs') ↔ ∀ x ∈ cs.splitOn ',', ∃ s k, Written x s k := by
  have hitems := isAlpha_of_mem_splitOn hletters
  rw [renumber_eq hstar hany, ← forall₂_congr fun x hx => renumberItem_eq_ok_iff x (hitems x hx),
    ← exists_mapM_eq_ok_iff]
  cases (cs.splitOn ',').mapM renumberItem <;> simp [Except.map]

theorem renumber_eq_error_iff (x : List Char) :
    renumber cs = .error x ↔ ∃ before after, cs.splitOn ',' = before ++ x :: after ∧
      (∀ y ∈ before, ∃ s k, Written y s k) ∧ ¬ ∃ s k, Written x s k := by
  have herr : renumber cs = .error x ↔ (cs.splitOn ',').mapM renumberItem = .error x := by
    rw [renumber_eq hstar hany]
    cases (cs.splitOn ',').mapM renumberItem <;> simp [Except.map]
  rw [herr, mapM_eq_error_iff]
  have hitems := isAlpha_of_mem_splitOn hletters
  constructor
  · rintro ⟨before, a, after, heq, hbefore, ha⟩
    have hmem (y : List Char) (hy : y ∈ before ++ a :: after) := hitems y (heq ▸ hy)
    obtain ⟨rfl, hn⟩ := (renumberItem_eq_error_iff a x (hmem a (by simp))).mp ha
    exact ⟨before, after, heq, fun y hy =>
      (renumberItem_eq_ok_iff y (hmem y (by simp [hy]))).mp (hbefore y hy), hn⟩
  · rintro ⟨before, after, heq, hbefore, hn⟩
    have hmem (y : List Char) (hy : y ∈ before ++ x :: after) := hitems y (heq ▸ hy)
    exact ⟨before, x, after, heq, fun y hy =>
      (renumberItem_eq_ok_iff y (hmem y (by simp [hy]))).mpr (hbefore y hy),
      (renumberItem_eq_error_iff x x (hmem x (by simp))).mpr ⟨rfl, hn⟩⟩

theorem exists_days_of_renumber (cs' : List Char) (h : renumber cs = .ok cs') :
    ∃ ds : List Nat, ds ≠ [] ∧ cs' = [','].intercalate (ds.map (Nat.toDigits 10)) ∧
      ∀ d, d ∈ ds ↔ ∃ v, (∃ x ∈ cs.splitOn ',', ∃ s k, Written x s k ∧ v ∈ unixDays s k) ∧
        v % 7 + 1 = d := by
  obtain ⟨ds, hds, hmem⟩ := exists_days_of_items _ (isAlpha_of_mem_splitOn hletters)
    ((exists_renumber_eq_ok_iff hletters hstar hany).mp ⟨cs', h⟩)
  rw [renumber_eq hstar hany] at h
  cases hm : (cs.splitOn ',').mapM renumberItem with
  | error err =>
    rw [hm] at h
    cases h
  | ok items =>
    rw [hm] at h
    cases h
    obtain ⟨heq, hne⟩ := intercalate_of_renumberItems _ items (List.splitOn_ne_nil ',' cs) hm
    rw [hds] at heq hne
    exact ⟨ds, by simpa using hne, heq, hmem⟩

end Letterless

/-- A field without letters is renumbered exactly if every item is a written form, and then to a list
of numbers that is read as a field of exactly the days that the items select; otherwise the error
names the first item that is no written form. -/
theorem renumber_keeps_days (cs : List Char) (hletters : ∀ c ∈ cs, c.isAlpha = false)
    (hstar : cs ≠ ['*']) (hany : cs ≠ ['?']) :
    ((∃ cs', renumber cs = .ok cs') ↔ ∀ x ∈ cs.splitOn ',', ∃ s k, Written x s k) ∧
    (∀ cs', renumber cs = .ok cs' → ∃ ds : List Nat,
      cs' = [','].intercalate (ds.map (Nat.toDigits 10)) ∧ (∀ d ∈ ds, 1 ≤ d ∧ d ≤ 7) ∧
      {d | d ∈ ds} = (fun v => v % 7 + 1) ''
        {v | ∃ x ∈ cs.splitOn ',', ∃ s k, Written x s k ∧ v ∈ unixDays s k} ∧
      ∃ ss, whole? (field .dayOfWeek) cs' = some ss ∧
        ∀ d, d ∈ Field.dayOfWeek.values ss ↔ d ∈ ds) ∧
    ∀ x, (renumber cs = .error x ↔ ∃ before after, cs.splitOn ',' = before ++ x :: after ∧
        (∀ y ∈ before, ∃ s k, Written y s k) ∧ ¬ ∃ s k, Written x s k) ∧
      (renumber cs = .error x → ∀ text minute hour day month,
        words text.toList = [minute, hour, day, month, cs] → Expression.parseUnix text =
          .error ⟨text, "invalid day of week '" ++ String.ofList x ++ "'"⟩) := by
  refine ⟨exists_renumber_eq_ok_iff hletters hstar hany, fun cs' h => ?_,
    fun x => ⟨renumber_eq_error_iff hletters hstar hany x, fun h text _ _ _ _ hw => ?_⟩⟩
  · obtain ⟨ds, hne, rfl, hmem⟩ := exists_days_of_renumber hletters hstar hany cs' h
    have hrange : ∀ d ∈ ds, 1 ≤ d ∧ d ≤ 7 := by
      intro d hd
      obtain ⟨v, -, rfl⟩ := (hmem d).mp hd
      omega
    have hfield := whole?_field_digits ds hne fun d hd =>
      List.mem_range'_1.mpr ⟨(hrange d hd).1, Nat.lt_succ_of_le (hrange d hd).2⟩
    exact ⟨ds, rfl, hrange, Set.ext hmem, hfield⟩
  · simp only [Expression.parseUnix, Expression.unixSchedule?, hw, h]
    rfl

/-- From Friday to Sunday, and every third day. -/
theorem renumber_keeps_days_of_weekend :
    let cs := ['5', '-', '7', ',', '*', '/', '3']
    let cs' := ['1', ',', '6', ',', '7', ',', '1', ',', '4', ',', '7']
    ∃ ds : List Nat, renumber cs = .ok cs' ∧ cs' = [','].intercalate (ds.map (Nat.toDigits 10)) ∧
      {d | d ∈ ds} = (fun v => v % 7 + 1) ''
        {v | ∃ x ∈ cs.splitOn ',', ∃ s k, Written x s k ∧ v ∈ unixDays s k} ∧
      ∃ ss, whole? (field .dayOfWeek) cs' = some ss ∧
        ∀ d, d ∈ Field.dayOfWeek.values ss ↔ d ∈ ds := by
  intro cs cs'
  have hr : renumber cs = .ok cs' := by decide +kernel
  have hletters : ∀ c ∈ cs, c.isAlpha = false := List.forall_iff_forall_mem.mp (by decide)
  obtain ⟨ds, hds, -, hdays, hfield⟩ :=
    (renumber_keeps_days cs hletters (by decide) (by decide)).2.1 cs' hr
  exact ⟨ds, hr, hds, hdays, hfield⟩

end CronTasks.Cron.Weekday
