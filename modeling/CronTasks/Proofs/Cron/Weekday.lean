import CronTasks.Cron.Weekday
import CronTasks.Proofs.Cron.Token
import Mathlib.Tactic.Common

namespace CronTasks.Cron

open Text Text.Reader

namespace Weekday

/-- The UNIX numbers, from 0 for Sunday to 6 for Saturday, of an item of the fifth field: names with
or without a step, or numbers without a sign, of which 7 is Sunday, too. -/
def unixItem? (cs : List Char) : Option (List Nat) :=
  if cs.any Char.isAlpha then
    (whole? (item .dayOfWeek) cs).map fun s => (List.range 7).filter fun n => s.selects (n + 1)
  else if cs.contains '+' then none
  else (stride? cs).map fun s =>
    (List.range 7).filter fun n => s.selects n || n == 0 && s.selects 7

def unixField? (cs : List Char) : Option (List Nat) :=
  match cs with
  | ['?'] => some (List.range 7)
  | cs => ((cs.splitOn ',').mapM unixItem?).map List.flatten

theorem stride?_bounds (cs : List Char) (s : Stride) (h : stride? cs = some s) :
    s.first ≤ s.last ∧ s.last ≤ 7 := by
  have hbase (step : Option Nat) (base : List Char) (h : (base? step base).bind (fun x =>
      if x.1 ≤ x.2 ∧ x.2 ≤ 7 then some ⟨x.1, x.2, step.getD 1⟩ else none) = some s) :
      s.first ≤ s.last ∧ s.last ≤ 7 := by
    obtain ⟨x, -, h⟩ := Option.bind_eq_some_iff.mp h
    split at h
    next hb =>
      cases h
      exact hb
    · cases h
  unfold stride? at h
  split at h
  · obtain ⟨n, -, h⟩ := Option.bind_eq_some_iff.mp h
    split at h
    · exact hbase _ _ h
    · cases h
  · exact hbase _ _ h

theorem mem_days (s : Stride) (n : Nat) :
    n + 1 ∈ days s ↔ n < 7 ∧ (s.selects n = true ∨ n = 0 ∧ s.selects 7 = true) := by
  simp only [days, List.mem_filter, List.mem_range'_1, List.any_eq_true, List.mem_range,
    Bool.and_eq_true, beq_iff_eq, ofUnix, Nat.add_right_cancel_iff]
  constructor
  · rintro ⟨hn, m, hm, hsel, rfl⟩
    obtain h7 | h7 : m < 7 ∨ m = 7 := by omega
    · rw [Nat.mod_eq_of_lt h7] at hn ⊢
      exact ⟨h7, .inl hsel⟩
    · subst h7
      exact ⟨by decide, .inr ⟨rfl, hsel⟩⟩
  · rintro ⟨hn, hsel | ⟨rfl, hsel⟩⟩
    · exact ⟨by omega, n, by omega, hsel, Nat.mod_eq_of_lt hn⟩
    · exact ⟨by decide, 7, by decide, hsel, rfl⟩

theorem days_ne_nil (s : Stride) (hs : s.first ≤ s.last ∧ s.last ≤ 7) : days s ≠ [] := by
  have hsel : s.selects s.first = true := by simp [Stride.selects, hs.1]
  have hmem : ofUnix s.first ∈ days s := by
    simp only [days, List.mem_filter, List.any_eq_true, Bool.and_eq_true, beq_iff_eq]
    refine ⟨?_, s.first, List.mem_range.mpr (by omega), hsel, rfl⟩
    simp only [ofUnix, List.mem_range'_1]
    omega
  exact List.ne_nil_of_mem hmem

/-- The texts of single items that an item is renumbered to. -/
def texts (cs : List Char) : List (List Char) :=
  if cs.any Char.isAlpha then [cs]
  else match stride? cs with
    | some s => (days s).map (Nat.toDigits 10)
    | none => []

theorem digits_spec (d : Nat) (hd : d ∈ List.range' 1 7) :
    (Nat.toDigits 10 d ≠ [] ∧ ∀ c ∈ Nat.toDigits 10 d, isGap c = false ∧ isLink c = false) ∧
      whole? (item .dayOfWeek) (Nat.toDigits 10 d) = some ⟨d, d, 1⟩ := by
  have hne : ∀ d ∈ List.range' 1 7, Nat.toDigits 10 d ≠ [] := by
    decide +kernel
  have hchar : ∀ d ∈ List.range' 1 7,
      (Nat.toDigits 10 d).all (fun c => !isGap c && !isLink c) = true := by
    decide +kernel
  have hitem : ∀ d ∈ List.range' 1 7,
      whole? (item .dayOfWeek) (Nat.toDigits 10 d) = some ⟨d, d, 1⟩ := by
    decide +kernel
  exact ⟨⟨hne d hd, fun c hc => by simpa using List.all_eq_true.mp (hchar d hd) c hc⟩, hitem d hd⟩

theorem mapM_digits (ds : List Nat) (hds : ∀ d ∈ ds, d ∈ List.range' 1 7) :
    (ds.map (Nat.toDigits 10)).mapM (whole? (item .dayOfWeek)) =
      some (ds.map fun d => ⟨d, d, 1⟩) := by
  induction ds with
  | nil => rfl
  | cons d ds ih =>
    rw [List.map_cons, List.mapM_cons, (digits_spec d (hds d List.mem_cons_self)).2,
      ih fun e he => hds e (List.mem_cons_of_mem d he)]
    rfl

/-- An item stays as it is, or it becomes texts without gaps and links. -/
def Settled (cs : List Char) : Prop :=
  texts cs ≠ [] ∧ (texts cs = [cs] ∧ cs ≠ [] ∨
    ∀ t ∈ texts cs, t ≠ [] ∧ ∀ c ∈ t, isGap c = false ∧ isLink c = false)

theorem texts_of_renumberItem (cs cs' : List Char) (h : renumberItem cs = .ok cs') :
    cs' = [','].intercalate (texts cs) ∧ Settled cs := by
  unfold renumberItem at h
  split at h
  next ha =>
    cases h
    have hne : cs ≠ [] := by
      rintro rfl
      simp at ha
    have hts : texts cs = [cs] := if_pos ha
    simp [Settled, hts, hne]
  next ha =>
    split at h
    next s hs =>
      cases h
      have hb := stride?_bounds cs s hs
      have hts : texts cs = (days s).map (Nat.toDigits 10) := by
        rw [texts, if_neg ha, hs]
      rw [Settled, hts]
      refine ⟨rfl, by simpa using days_ne_nil s hb, .inr fun t ht => ?_⟩
      obtain ⟨d, hd, rfl⟩ := List.mem_map.mp ht
      exact (digits_spec d (List.mem_of_mem_filter hd)).1
    · cases h

theorem unixItem?_of_texts (cs : List Char) (ss : List Stride) (hplus : '+' ∉ cs)
    (hne : texts cs ≠ []) (h : (texts cs).mapM (whole? (item .dayOfWeek)) = some ss) :
    ∃ ns, unixItem? cs = some ns ∧
      ∀ n, n ∈ ns ↔ n < 7 ∧ ∃ s ∈ ss, s.selects (n + 1) = true := by
  unfold texts at h hne
  unfold unixItem?
  split at h
  next ha =>
    simp only [List.mapM_cons, List.mapM_nil, Option.pure_def, Option.bind_eq_bind,
      Option.bind_some, Option.bind_eq_some_iff] at h
    obtain ⟨s, hs, h⟩ := h
    cases h
    refine ⟨_, by rw [if_pos ha, hs]; rfl, fun n => ?_⟩
    simp
  next ha =>
    simp only [ha, Bool.false_eq_true, ↓reduceIte] at hne
    split at h
    next s hs =>
      rw [mapM_digits (days s) fun d hd => List.mem_of_mem_filter hd] at h
      cases h
      refine ⟨(List.range 7).filter fun n => s.selects n || n == 0 && s.selects 7,
        by simp [ha, hplus, hs], fun n => ?_⟩
      have hone (d : Nat) : Stride.selects ⟨d, d, 1⟩ (n + 1) = true ↔ d = n + 1 := by
        simp only [Stride.selects, Bool.and_eq_true, decide_eq_true_eq, beq_iff_eq, Nat.mod_one,
          and_true]
        omega
      have hmem := mem_days s n
      simp only [List.mem_filter, List.mem_range, Bool.or_eq_true, Bool.and_eq_true, beq_iff_eq,
        List.mem_map, exists_exists_and_eq_and, hone, exists_eq_right]
      rw [hmem]
      tauto
    next hs =>
      rw [hs] at hne
      exact absurd rfl hne

theorem Settled.plain {x t : List Char} (h : Settled x)
    (hx : (∀ c ∈ x, isGap c = false) ∧ ',' ∉ x) (ht : t ∈ texts x) :
    (∀ c ∈ t, isGap c = false) ∧ ',' ∉ t := by
  obtain ⟨-, ⟨he, -⟩ | hgood⟩ := h
  · obtain rfl : t = x := by simpa [he] using ht
    exact hx
  · exact ⟨fun c hc => ((hgood t ht).2 c hc).1,
      fun hcomma => absurd ((hgood t ht).2 ',' hcomma).2 nofun⟩

theorem Settled.head {x : List Char} (h : Settled x) (hx : ∀ c ∈ x.head?, isLink c = false) :
    ∃ t ts, texts x = t :: ts ∧ t ≠ [] ∧ ∀ c ∈ t.head?, isLink c = false := by
  obtain ⟨hne, ⟨he, hx'⟩ | hgood⟩ := h
  · exact ⟨x, [], he, hx', hx⟩
  · obtain ⟨t, ts, hts⟩ := List.exists_cons_of_ne_nil hne
    obtain ⟨htne, hlinks⟩ := hgood t (hts ▸ List.mem_cons_self)
    exact ⟨t, ts, hts, htne, fun c hc => (hlinks c (List.mem_of_mem_head? hc)).2⟩

theorem Settled.last {x : List Char} (h : Settled x) (hx : ∀ c ∈ x.getLast?, isLink c = false) :
    ∃ ts t, texts x = ts ++ [t] ∧ t ≠ [] ∧ ∀ c ∈ t.getLast?, isLink c = false := by
  obtain ⟨hne, ⟨he, hx'⟩ | hgood⟩ := h
  · exact ⟨[], x, he, hx', hx⟩
  · obtain hnil | ⟨ts, t, hts⟩ := List.eq_nil_or_concat' (texts x)
    · exact absurd hnil hne
    · obtain ⟨htne, hlinks⟩ := hgood t (by simp [hts])
      exact ⟨ts, t, hts, htne, fun c hc => (hlinks c (List.mem_of_mem_getLast? hc)).2⟩

theorem compact_intercalate (xs : List (List Char)) (hw : Compact ([','].intercalate xs))
    (hs : ∀ x ∈ xs, Settled x) (hx : ∀ x ∈ xs, (∀ c ∈ x, isGap c = false) ∧ ',' ∉ x) :
    Compact ([','].intercalate (xs.flatMap texts)) := by
  have hne : xs ≠ [] := by
    rintro rfl
    exact hw.ne_nil rfl
  obtain ⟨t, ts, hts, htne, ht⟩ :
      ∃ t ts, xs.flatMap texts = t :: ts ∧ t ≠ [] ∧ ∀ c ∈ t.head?, isLink c = false := by
    obtain ⟨x, xs, rfl⟩ := List.exists_cons_of_ne_nil hne
    obtain ⟨t, ts, hts, htne, ht⟩ := (hs x List.mem_cons_self).head fun c hc =>
      hw.head c (by rwa [head?_intercalate ',' (by rintro rfl; cases hc)])
    exact ⟨t, ts ++ xs.flatMap texts, by rw [List.flatMap_cons, hts, List.cons_append], htne, ht⟩
  obtain ⟨us, u, hus, hune, hu⟩ :
      ∃ us u, xs.flatMap texts = us ++ [u] ∧ u ≠ [] ∧ ∀ c ∈ u.getLast?, isLink c = false := by
    obtain rfl | ⟨xs, x, rfl⟩ := List.eq_nil_or_concat' xs
    · exact absurd rfl hne
    · obtain ⟨us, u, hus, hune, hu⟩ := (hs x (by simp)).last fun c hc =>
        hw.last c (by rwa [getLast?_intercalate ',' xs (by rintro rfl; cases hc)])
      exact ⟨xs.flatMap texts ++ us, u, by simp [hus], hune, hu⟩
  refine ⟨fun hnil => ?_, fun c hc => ?_, ?_, ?_⟩
  · have hl := getLast?_intercalate ',' us hune
    rw [← hus, hnil] at hl
    exact hune (List.getLast?_eq_none_iff.mp hl.symm)
  · by_cases hcomma : c = ','
    · rw [hcomma]
      rfl
    · obtain ⟨v, hv, hcv⟩ := (mem_intercalate ',' c _ hcomma).mp hc
      obtain ⟨x, hmem, hvx⟩ := List.mem_flatMap.mp hv
      exact ((hs x hmem).plain (hx x hmem) hvx).1 c hcv
  · rwa [hts, head?_intercalate ',' htne]
  · rwa [hus, getLast?_intercalate ',' us hune]

theorem mapM_cons_eq_ok {α β ε : Type} {f : α → Except ε β} {a : α} {as : List α} {bs : List β}
    (h : (a :: as).mapM f = .ok bs) :
    ∃ b bs', f a = .ok b ∧ as.mapM f = .ok bs' ∧ bs = b :: bs' := by
  rw [List.mapM_cons] at h
  cases hf : f a with
  | error err =>
    rw [hf] at h
    cases h
  | ok b =>
    cases hm : as.mapM f with
    | error err =>
      rw [hf, hm] at h
      cases h
    | ok bs' =>
      rw [hf, hm] at h
      cases h
      exact ⟨b, bs', rfl, rfl, rfl⟩

theorem rows_of_renumberItems (xs xs' : List (List Char)) (h : xs.mapM renumberItem = .ok xs') :
    rows ',' xs' = rows ',' (xs.flatMap texts) ∧ ∀ x ∈ xs, Settled x := by
  induction xs generalizing xs' with
  | nil =>
    cases h
    exact ⟨rfl, nofun⟩
  | cons x xs ih =>
    obtain ⟨x', xs', hx, hxs, rfl⟩ := mapM_cons_eq_ok h
    obtain ⟨hr, hs⟩ := ih xs' hxs
    obtain ⟨rfl, hsettled⟩ := texts_of_renumberItem x x' hx
    refine ⟨?_, List.forall_mem_cons.mpr ⟨hsettled, hs⟩⟩
    calc rows ',' ([','].intercalate (texts x) :: xs')
        = (',' :: [','].intercalate (texts x)) ++ rows ',' xs' := rfl
      _ = rows ',' (texts x) ++ rows ',' (xs.flatMap texts) := by
          rw [cons_intercalate ',' hsettled.1, hr]
      _ = rows ',' ((x :: xs).flatMap texts) := by
          rw [List.flatMap_cons, rows, rows, rows, List.flatMap_append]

theorem intercalate_of_renumberItems (xs xs' : List (List Char)) (hne : xs ≠ [])
    (h : xs.mapM renumberItem = .ok xs') :
    [','].intercalate xs' = [','].intercalate (xs.flatMap texts) ∧ xs.flatMap texts ≠ [] := by
  obtain ⟨hr, hs⟩ := rows_of_renumberItems xs xs' h
  have hts : xs.flatMap texts ≠ [] := by
    obtain ⟨x, hx⟩ := List.exists_mem_of_ne_nil xs hne
    obtain ⟨t, ht⟩ := List.exists_mem_of_ne_nil (texts x) (hs x hx).1
    exact List.ne_nil_of_mem (List.mem_flatMap.mpr ⟨x, hx, ht⟩)
  have hne' : xs' ≠ [] := by
    rintro rfl
    rw [← cons_intercalate ',' hts] at hr
    cases hr
  rw [← cons_intercalate ',' hne', ← cons_intercalate ',' hts] at hr
  exact ⟨(List.cons.inj hr).2, hts⟩

theorem unixItems_of_texts (xs : List (List Char)) (ss : List Stride) (hplus : ∀ x ∈ xs, '+' ∉ x)
    (hxs : ∀ x ∈ xs, Settled x)
    (h : (xs.flatMap texts).mapM (whole? (item .dayOfWeek)) = some ss) :
    ∃ nss, xs.mapM unixItem? = some nss ∧
      ∀ n, n ∈ nss.flatten ↔ n < 7 ∧ ∃ s ∈ ss, s.selects (n + 1) = true := by
  induction xs generalizing ss with
  | nil =>
    cases h
    exact ⟨[], rfl, by simp⟩
  | cons x xs ih =>
    rw [List.flatMap_cons, List.mapM_append] at h
    simp only [Option.bind_eq_bind, Option.bind_eq_some_iff] at h
    obtain ⟨ss₁, h₁, ss₂, h₂, h⟩ := h
    cases h
    obtain ⟨ns, hns, hmem⟩ := unixItem?_of_texts x ss₁ (hplus x List.mem_cons_self)
      (hxs x List.mem_cons_self).1 h₁
    obtain ⟨nss, hnss, hmem'⟩ := ih ss₂ (fun y hy => hplus y (List.mem_cons_of_mem x hy))
      (fun y hy => hxs y (List.mem_cons_of_mem x hy)) h₂
    refine ⟨ns :: nss, by rw [List.mapM_cons, hns, hnss]; rfl, fun n => ?_⟩
    rw [List.flatten_cons, List.mem_append, hmem, hmem']
    simp only [List.mem_append, or_and_right, exists_or]
    exact and_or_left.symm

/-- What the fifth field is renumbered to is a compact text, and where that is a field, the fifth
field is one in UNIX numbering, of the same days. -/
theorem renumber_spec {cs cs' : List Char} (hc : Compact cs) (hplus : '+' ∉ cs)
    (h : renumber cs = .ok cs') : Compact cs' ∧ ∀ ss, whole? (field .dayOfWeek) cs' = some ss →
      ∃ ns, unixField? cs = some ns ∧ ∀ n, n ∈ ns ↔ n + 1 ∈ Field.dayOfWeek.values ss := by
  have hall (n : Nat) : n ∈ List.range 7 ↔ n + 1 ∈ Field.dayOfWeek.values [⟨1, 7, 1⟩] := by
    have hv : Field.dayOfWeek.values [⟨1, 7, 1⟩] = List.range' 1 7 := by decide
    rw [hv, List.mem_range, List.mem_range'_1]
    omega
  unfold renumber at h
  split at h
  · cases h
    have hw : whole? (field .dayOfWeek) ['*'] = some [⟨1, 7, 1⟩] := by decide +kernel
    have hu : unixField? ['*'] = some (List.range 7) := by decide +kernel
    refine ⟨hc, fun ss hss => ⟨_, hu, ?_⟩⟩
    cases hw.symm.trans hss
    exact hall
  · cases h
    have hw : whole? (field .dayOfWeek) ['?'] = some [⟨1, 7, 1⟩] := by decide +kernel
    refine ⟨hc, fun ss hss => ⟨_, rfl, ?_⟩⟩
    cases hw.symm.trans hss
    exact hall
  next hstar hany =>
    -- all that stands between commas is renumbered for itself
    have hu : unixField? cs = ((cs.splitOn ',').mapM unixItem?).map List.flatten := by
      unfold unixField?
      split
      · exact absurd rfl hany
      · rfl
    cases hm : (cs.splitOn ',').mapM renumberItem with
    | error err =>
      rw [hm] at h
      cases h
    | ok items =>
      rw [hm] at h
      cases h
      have hs := (rows_of_renumberItems _ items hm).2
      obtain ⟨heq, hts⟩ := intercalate_of_renumberItems _ items (List.splitOn_ne_nil ',' cs) hm
      have hplain (x : List Char) (hx : x ∈ cs.splitOn ',') (c : Char) (hcx : c ∈ x) :
          c ≠ ',' ∧ c ∈ cs := by
        rw [List.splitOn_eq_splitOnP] at hx
        simpa using mem_splitOnP _ cs x hx c hcx
      have hitems (x : List Char) (hx : x ∈ cs.splitOn ',') :
          (∀ c ∈ x, isGap c = false) ∧ ',' ∉ x :=
        ⟨fun c hcx => hc.no_gap c (hplain x hx c hcx).2, fun hcomma => (hplain x hx ',' hcomma).1 rfl⟩
      have htexts : ∀ t ∈ (cs.splitOn ',').flatMap texts,
          (∀ c ∈ t, isGap c = false) ∧ ',' ∉ t := by
        intro t ht
        obtain ⟨x, hx, ht⟩ := List.mem_flatMap.mp ht
        exact (hs x hx).plain (hitems x hx) ht
      rw [heq, whole?_field .dayOfWeek _ hts htexts, hu]
      refine ⟨compact_intercalate _ (by rwa [List.intercalate_splitOn]) hs hitems,
        fun ss hss => ?_⟩
      obtain ⟨nss, hnss, hmem⟩ := unixItems_of_texts _ ss
        (fun x hx hp => hplus (hplain x hx '+' hp).2) hs hss
      refine ⟨nss.flatten, by rw [hnss]; rfl, fun n => ?_⟩
      rw [hmem, Field.mem_values]
      simp only [Field.first, Field.last]
      exact and_congr_left fun _ => by omega

end Weekday

end CronTasks.Cron
