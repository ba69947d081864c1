import CronTasks.Proofs.Cron.Instants
import CronTasks.Proofs.Trigger.Repetition

namespace CronTasks.Trigger

open Calendar Cron Text

namespace Word

variable {w : Word} {n : Int}

theorem fits?_eq_some (hl : w.low ≤ n) (hh : n ≤ w.high) : w.fits? n = some n :=
  if_pos ⟨hl, hh⟩

theorem fits?_eq_none (h : w.high < n) : w.fits? n = none :=
  if_neg fun hn => absurd hn.2 (not_le.mpr h)

theorem keep_eq_ok (hl : w.low ≤ n) (hh : n ≤ w.high) : w.keep n = .ok n := by
  rw [keep, fits?_eq_some hl hh]
  rfl

end Word

namespace Repetition

theorem earliest_eq : Instant.earliest = -8334601228800000 := by decide

theorem latest_eq : Instant.latest = 8210266876799999 := by decide

theorem instantInWords_eq (r : Repetition) (hs : r.startAt.InRange) (k : Nat) :
    r.instantInWords k = .ok (r.instant? k) := by
  have hlow := hs.1
  rw [earliest_eq] at hlow
  have hcast : (k : Int) * r.interval = (k * r.interval : Nat) := by push_cast; rfl
  unfold instantInWords instant?
  rw [hcast]
  generalize k * r.interval = n
  by_cases hn : (n : Int) ≤ 9223372036854775807
  · have hu : Word.unsigned64.fits? n = some (n : Int) :=
      Word.fits?_eq_some (Int.natCast_nonneg n) (by simp only [Word.unsigned64, Numeral.max64]; lia)
    have hg : Word.signed64.fits? n = some (n : Int) :=
      Word.fits?_eq_some (by simp only [Word.signed64]; lia) hn
    have hm : Word.millis.keep n = .ok (n : Int) :=
      Word.keep_eq_ok (by simp only [Word.millis]; lia) hn
    simp only [hu, Option.bind_some, hg, hm]
    rfl
  · have hout : r.startAt.plus? n = none := by
      refine if_neg fun hr => ?_
      have hhigh := hr.2
      rw [latest_eq] at hhigh
      lia
    have hnone : (Word.unsigned64.fits? n).bind Word.signed64.fits? = none := by
      unfold Word.fits?
      split
      · exact Word.fits?_eq_none (w := Word.signed64) (not_le.mp hn)
      · rfl
    rw [hnone, hout]

theorem nextInWords_eq (r : Repetition) (after : Instant) (hs : r.startAt.InRange)
    (ha : after.InRange) : r.nextInWords after = .ok (r.next? after) := by
  unfold nextInWords next?
  by_cases hlt : after < r.startAt
  · simp only [hlt, ↓reduceIte]
  by_cases hi : r.interval = 0
  · simp only [hlt, hi, ↓reduceIte]
  -- what has passed since the start is far from the ends of a word
  obtain ⟨elapsed, he⟩ : ∃ elapsed : Nat, after - r.startAt = elapsed :=
    ⟨(after - r.startAt).toNat, by lia⟩
  have hle : (elapsed : Int) ≤ 16544868105599999 := by
    have hlow := hs.1
    have hhigh := ha.2
    rw [earliest_eq] at hlow
    rw [latest_eq] at hhigh
    lia
  have hquot : elapsed / r.interval ≤ elapsed := Nat.div_le_self _ _
  have hkeep : Word.signed64.keep elapsed = .ok (elapsed : Int) :=
    Word.keep_eq_ok (by simp only [Word.signed64]; lia) (by simp only [Word.signed64]; lia)
  have hfits : Word.unsigned64.fits? elapsed = some (elapsed : Int) :=
    Word.fits?_eq_some (Int.natCast_nonneg _) (by simp only [Word.unsigned64, Numeral.max64]; lia)
  have hcast : (elapsed : Int) / r.interval + 1 = (elapsed / r.interval + 1 : Nat) := by
    push_cast
    rfl
  have hindex : Word.unsigned64.keep (elapsed / r.interval + 1 : Nat) =
      .ok ((elapsed / r.interval + 1 : Nat) : Int) :=
    Word.keep_eq_ok (Int.natCast_nonneg _) (by simp only [Word.unsigned64, Numeral.max64]; lia)
  simp only [hlt, hi, he, ↓reduceIte, Int.toNat_natCast]
  rw [hkeep, Except.bind, hfits, Option.elim_some, hcast, hindex, Except.bind]
  simp only [Nat.cast_lt, r.instantInWords_eq hs]
  exact (apply_ite Except.ok _ _ _).symm

/-- The instants of a repetition that can be represented. -/
def representable (r : Repetition) : Set Instant := {t | t ∈ r.instants ∧ t.InRange}

theorem lt_instant_iff (r : Repetition) (after : Instant) (hle : r.startAt ≤ after)
    (hi : r.interval ≠ 0) (k : Nat) : after < r.startAt + (k * r.interval : Nat) ↔
      (after - r.startAt).toNat / r.interval + 1 ≤ k := by
  have hdiv := Nat.div_lt_iff_lt_mul (x := (after - r.startAt).toNat) (y := k) (Nat.pos_of_ne_zero hi)
  rw [Nat.add_one_le_iff, hdiv]
  generalize k * r.interval = n
  lia

/-- What is found is the least instant that is left. From the start on the range of instants can be
left only at its end, so that behind an instant out of range there are only more of them. -/
theorem isFirst_next? (r : Repetition) (after : Instant)
    (hs : r.startAt ≤ after ∨ r.startAt.InRange) (ha : Instant.earliest ≤ after) :
    IsFirst (r.representable ∩ Set.Ioi after) (r.next? after) := by
  by_cases hlt : after < r.startAt
  · rw [next?, if_pos hlt]
    refine ⟨⟨⟨r.startAt_mem_instants, hs.resolve_left (not_le.mpr hlt)⟩, hlt⟩, ?_⟩
    rintro _ ⟨⟨⟨k, -, -, rfl⟩, -⟩, -⟩
    lia
  have hle := not_lt.mp hlt
  by_cases hi : r.interval = 0
  · rw [next?, if_neg hlt, if_pos hi]
    apply Set.eq_empty_iff_forall_notMem.mpr
    rintro _ ⟨⟨⟨k, -, -, rfl⟩, -⟩, hk⟩
    rw [hi, Nat.mul_zero, Nat.cast_zero, add_zero] at hk
    exact hlt hk
  have hlater := r.lt_instant_iff after hle hi
  simp only [next?, hlt, hi, ↓reduceIte]
  generalize (after - r.startAt).toNat / r.interval + 1 = index at hlater
  split
  next hany =>
    -- the next instant would come after the last repetition
    obtain ⟨n, hn, hlt'⟩ := (Option.any_eq_true _ _).mp hany
    apply Set.eq_empty_iff_forall_notMem.mpr
    rintro _ ⟨⟨⟨k, hk, -, rfl⟩, -⟩, hk'⟩
    have := hk n hn
    have := (hlater k).mp hk'
    have := of_decide_eq_true hlt'
    omega
  next hany =>
    have hmem : ∀ n, r.repeats = some n → index ≤ n := by
      intro n hn
      simpa [hn] using hany
    unfold instant? Instant.plus?
    split
    next hin =>
      refine ⟨⟨⟨⟨index, hmem, fun h => absurd h hi, rfl⟩, hin⟩, (hlater index).mpr le_rfl⟩, ?_⟩
      rintro _ ⟨⟨⟨k, -, -, rfl⟩, -⟩, hk⟩
      have := Nat.mul_le_mul_right r.interval ((hlater k).mp hk)
      lia
    next hout =>
      -- beyond an instant out of range there is none within it
      apply Set.eq_empty_iff_forall_notMem.mpr
      rintro _ ⟨⟨⟨k, -, -, rfl⟩, hin⟩, hk⟩
      have hindex := (hlater index).mpr le_rfl
      have := Nat.mul_le_mul_right r.interval ((hlater k).mp hk)
      refine hout ⟨by lia, ?_⟩
      have := hin.2
      lia

/-- Whatever its start in the range of instants, its interval and its limit are, the next instant of a
repetition is computed in machine words without a panic, and it is the least instant of the schedule
later than the given one that can be represented; none is found exactly if none is left. -/
theorem next?_is_least_left (r : Repetition) (after : Instant) (hs : r.startAt.InRange)
    (ha : after.InRange) :
    r.nextInWords after = .ok (r.next? after) ∧
      (∀ t, r.next? after = some t ↔
        IsLeast {t | t ∈ r.instants ∧ t.InRange ∧ after < t} t) ∧
      (r.next? after = none ↔ ∀ t ∈ r.instants, t.InRange → t ≤ after) := by
  have hfirst := r.isFirst_next? after (.inr hs) ha.1
  have hset : {t | t ∈ r.instants ∧ t.InRange ∧ after < t} = r.representable ∩ Set.Ioi after := by
    ext t
    exact and_assoc.symm
  refine ⟨r.nextInWords_eq after hs ha, fun t => ?_, ?_⟩
  · rw [hset, hfirst.eq_some_iff]
  · rw [hfirst.eq_none_iff, Set.eq_empty_iff_forall_notMem]
    exact ⟨fun h t ht hin => not_lt.mp fun hlt => h t ⟨⟨ht, hin⟩, hlt⟩,
      fun h t ⟨⟨ht, hin⟩, hlt⟩ => absurd (h t ht hin) (not_le.mpr hlt)⟩

/-- A repetition that spans the range of instants is found at its other end, and not again. -/
theorem next?_is_least_left_across_the_range :
    let r : Repetition := ⟨Instant.earliest, 16544868105599999, none⟩
    r.nextInWords Instant.earliest = .ok (some Instant.latest) ∧
      IsLeast {t | t ∈ r.instants ∧ t.InRange ∧ Instant.earliest < t} Instant.latest ∧
      r.nextInWords Instant.latest = .ok none ∧
      ∀ t ∈ r.instants, t.InRange → t ≤ Instant.latest := by
  intro r
  have hr : r.startAt.InRange := by decide
  obtain ⟨hwords, hsome, -⟩ := r.next?_is_least_left Instant.earliest hr (by decide)
  obtain ⟨hwords', -, hnone⟩ := r.next?_is_least_left Instant.latest hr (by decide)
  have hnext : r.next? Instant.earliest = some Instant.latest := by decide
  have hend : r.next? Instant.latest = none := by decide
  exact ⟨hnext ▸ hwords, (hsome _).mp hnext, hend ▸ hwords', hnone.mp hend⟩

end Repetition

end CronTasks.Trigger
