import CronTasks.Proofs.Cron.Instants

namespace CronTasks.Cron

open Calendar

theorem min?_append (ts us : List Instant) :
    (ts ++ us).min? = Option.merge min ts.min? us.min? := by
  induction ts with
  | nil => rw [List.nil_append, List.min?_nil, Option.merge_none_left]
  | cons t ts ih =>
    rw [List.cons_append, List.min?_cons, List.min?_cons, ih]
    cases ts.min? <;> cases us.min? <;> simp [Option.merge, min_assoc]

theorem min?_congr (ts us : List Instant) (h : ∀ t, t ∈ ts ↔ t ∈ us) : ts.min? = us.min? := by
  ext t
  rw [List.min?_eq_some_iff, List.min?_eq_some_iff]
  simp only [h]

theorem mapM_append_eq_ok_iff {α β ε : Type} (f : α → Except ε β) (as bs : List α) (xs : List β) :
    (as ++ bs).mapM f = .ok xs ↔
      ∃ ys zs, as.mapM f = .ok ys ∧ bs.mapM f = .ok zs ∧ xs = ys ++ zs := by
  rw [List.mapM_append]
  cases as.mapM f with
  | error err => exact iff_of_false nofun nofun
  | ok ys =>
    cases bs.mapM f with
    | error err => exact iff_of_false nofun nofun
    | ok zs => simp [bind, Except.bind, pure, Except.pure, eq_comm]

namespace Pattern

/-- What is blank as a whole is one blank alternative. -/
theorem parseAlternatives_eq_ok_iff (cs : List Char) (es : List Expression) :
    parseAlternatives cs = .ok es ↔ (cs.splitOn '|').mapM parseAlternative = .ok es := by
  unfold parseAlternatives
  split
  next hb =>
    have hbar : '|' ∉ cs := fun hm => absurd (List.all_eq_true.mp hb '|' hm) (by decide)
    rw [List.splitOn_eq_singleton hbar, List.mapM_cons, parseAlternative, if_pos hb]
    exact iff_of_false nofun nofun
  · rfl

theorem parse_eq_ok_iff (s : String) (p : Pattern) : parse s = .ok p ↔
    ∃ es, (s.toList.splitOn '|').mapM parseAlternative = .ok es ∧ p = ⟨s, es⟩ := by
  simp only [← parseAlternatives_eq_ok_iff]
  unfold parse
  cases parseAlternatives s.toList <;> simp [eq_comm]

theorem parse_append_eq_ok_iff (s t : String) (z : Pattern) : parse (s ++ "|" ++ t) = .ok z ↔
    ∃ p q, parse s = .ok p ∧ parse t = .ok q ∧
      z = ⟨s ++ "|" ++ t, p.alternatives ++ q.alternatives⟩ := by
  have hsplit : (s ++ "|" ++ t).toList.splitOn '|' = s.toList.splitOn '|' ++ t.toList.splitOn '|' := by
    rw [String.toList_append, String.toList_append, List.append_assoc]
    exact List.splitOn_append_cons_self _ _
  simp only [parse_eq_ok_iff, hsplit, mapM_append_eq_ok_iff]
  constructor
  · rintro ⟨_, ⟨ys, zs, hys, hzs, rfl⟩, rfl⟩
    exact ⟨_, _, ⟨ys, hys, rfl⟩, ⟨zs, hzs, rfl⟩, rfl⟩
  · rintro ⟨_, _, ⟨ys, hys, rfl⟩, ⟨zs, hzs, rfl⟩, rfl⟩
    exact ⟨_, ⟨ys, zs, hys, hzs, rfl⟩, rfl⟩

theorem next?_append (text : String) (p q : Pattern) (after : Instant) (zone : Option Zone) :
    next? ⟨text, p.alternatives ++ q.alternatives⟩ after zone = (do
      return Option.merge min (← p.next? after zone) (← q.next? after zone)) := by
  simp only [next?, List.mapM_append, bind_assoc, pure_bind, List.filterMap_append, min?_append]

theorem next?_congr (p q : Pattern) (h : ∀ e, e ∈ p.alternatives ↔ e ∈ q.alternatives)
    (after : Instant) (zone : Option Zone) : p.next? after zone = q.next? after zone := by
  by_cases hp : p.alternatives = []
  · have hq : q.alternatives = [] :=
      List.eq_nil_iff_forall_not_mem.mpr fun e he => List.not_mem_nil (hp ▸ (h e).mpr he)
    simp only [next?, hp, hq]
  · have hq : q.alternatives ≠ [] := by
      obtain ⟨e, he⟩ := List.exists_mem_of_ne_nil _ hp
      exact List.ne_nil_of_mem ((h e).mp he)
    have hs : p.search? after zone = q.search? after zone :=
      min?_congr _ _ fun t => by simp only [List.mem_filterMap, h]
    rw [p.next?_eq hp, q.next?_eq hq, hs]

theorem exists_parse_append_iff (s t : String) : (∃ z, parse (s ++ "|" ++ t) = .ok z) ↔
    (∃ p, parse s = .ok p) ∧ ∃ q, parse t = .ok q := by
  simp only [parse_append_eq_ok_iff]
  constructor
  · rintro ⟨_, p, q, hp, hq, -⟩
    exact ⟨⟨p, hp⟩, q, hq⟩
  · rintro ⟨⟨p, hp⟩, q, hq⟩
    exact ⟨_, p, q, hp, hq, rfl⟩

theorem not_parse_empty (p : Pattern) : parse "" ≠ .ok p := by
  simp [parse, parseAlternatives]

theorem exists_parse_intercalate_iff (xs : List String) :
    (∃ z, parse ("|".intercalate xs) = .ok z) ↔ xs ≠ [] ∧ ∀ x ∈ xs, ∃ p, parse x = .ok p := by
  induction xs with
  | nil => exact iff_of_false (fun ⟨p, hp⟩ => not_parse_empty p hp) fun h => h.1 rfl
  | cons x xs ih =>
    cases xs with
    | nil => simp
    | cons y ys =>
      rw [String.intercalate_cons_cons, exists_parse_append_iff, ih]
      simp

theorem mem_alternatives_iff (xs : List String) (z : Pattern)
    (h : parse ("|".intercalate xs) = .ok z) (e : Expression) :
    e ∈ z.alternatives ↔ ∃ x ∈ xs, ∃ p, parse x = .ok p ∧ e ∈ p.alternatives := by
  induction xs generalizing z with
  | nil => exact absurd h (not_parse_empty z)
  | cons x xs ih =>
    cases xs with
    | nil =>
      rw [String.intercalate_singleton] at h
      simp [h]
    | cons y ys =>
      rw [String.intercalate_cons_cons] at h
      obtain ⟨p, q, hp, hq, rfl⟩ := (parse_append_eq_ok_iff _ _ z).mp h
      simp [ih q hq, hp]

end Pattern

/-- Two texts with a bar between them are a pattern exactly if both are. Its alternatives are those of
the first one and then those of the second, and its next fire time is the earlier one of theirs. So
texts that stand between bars may be reordered and repeated without a change of any fire time. -/
theorem alternatives_compose :
    (∀ s t z, Pattern.parse (s ++ "|" ++ t) = .ok z ↔
      ∃ p q, Pattern.parse s = .ok p ∧ Pattern.parse t = .ok q ∧
        z = ⟨s ++ "|" ++ t, p.alternatives ++ q.alternatives⟩) ∧
    (∀ s t p q z, Pattern.parse s = .ok p → Pattern.parse t = .ok q →
      Pattern.parse (s ++ "|" ++ t) = .ok z → ∀ after zone,
        z.next? after zone = do
          return Option.merge min (← p.next? after zone) (← q.next? after zone)) ∧
    ∀ xs ys : List String, (∀ x, x ∈ xs ↔ x ∈ ys) → ∀ p, Pattern.parse ("|".intercalate xs) = .ok p →
      ∃ q, Pattern.parse ("|".intercalate ys) = .ok q ∧
        ∀ after zone, q.next? after zone = p.next? after zone := by
  refine ⟨Pattern.parse_append_eq_ok_iff, fun s t p q z hp hq hz after zone => ?_,
    fun xs ys hxy p hp => ?_⟩
  · obtain ⟨p', q', hp', hq', rfl⟩ := (Pattern.parse_append_eq_ok_iff s t z).mp hz
    obtain rfl : p = p' := Except.ok.inj (hp.symm.trans hp')
    obtain rfl : q = q' := Except.ok.inj (hq.symm.trans hq')
    exact Pattern.next?_append _ p q after zone
  · obtain ⟨hne, hall⟩ := (Pattern.exists_parse_intercalate_iff xs).mp ⟨p, hp⟩
    have hys : ys ≠ [] := by
      rintro rfl
      obtain ⟨x, hx⟩ := List.exists_mem_of_ne_nil xs hne
      exact List.not_mem_nil ((hxy x).mp hx)
    obtain ⟨q, hq⟩ := (Pattern.exists_parse_intercalate_iff ys).mpr
      ⟨hys, fun y hy => hall y ((hxy y).mpr hy)⟩
    refine ⟨q, hq, Pattern.next?_congr q p fun e => ?_⟩
    rw [Pattern.mem_alternatives_iff ys q hq, Pattern.mem_alternatives_iff xs p hp]
    simp only [hxy]

end CronTasks.Cron
