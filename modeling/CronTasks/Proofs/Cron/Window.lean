import CronTasks.Proofs.Cron.Instants

namespace CronTasks.Cron

open Calendar

open Classical in
/-- How often each tick of a series fires, where it fires once if an instant lies after the
tick before it and not after itself, and not at all otherwise. A tick in the last second fires
nothing. -/
noncomputable def windowCounts (S : Set Instant) (t : Instant) : List Instant → List Nat
  | [] => []
  | u :: us =>
    (if u.hasNextSecond ∧ (S ∩ Set.Ioc t u).Nonempty then 1 else 0) :: windowCounts S u us

theorem IsFirst.due_iff {S : Set Instant} {t : Instant} {o : Option Instant}
    (h : IsFirst (S ∩ Set.Ioi t) o) (u : Instant) :
    o.any (· ≤ u) = true ↔ (S ∩ Set.Ioc t u).Nonempty := by
  cases o with
  | none =>
    refine iff_of_false Bool.false_ne_true ?_
    rintro ⟨v, hv, hlt, -⟩
    have : v ∈ S ∩ Set.Ioi t := ⟨hv, hlt⟩
    rw [h] at this
    exact this
  | some w =>
    obtain ⟨⟨hw, hlt⟩, hleast⟩ := h
    rw [Option.any_some, decide_eq_true_iff]
    constructor
    · exact fun hle => ⟨w, hw, hlt, hle⟩
    · rintro ⟨v, hv, hlt', hle⟩
      exact (hleast ⟨hv, hlt'⟩).trans hle

theorem IsFirst.windowCounts_cons {S : Set Instant} {t : Instant} {o : Option Instant}
    (h : IsFirst (S ∩ Set.Ioi t) o) (u : Instant) (us : List Instant)
    (hu : u.hasNextSecond = true) :
    windowCounts S t (u :: us) = (if o.any (· ≤ u) then 1 else 0) :: windowCounts S u us := by
  by_cases hd : o.any (· ≤ u) = true
  · rw [windowCounts, if_pos hd, if_pos ⟨hu, (h.due_iff u).mp hd⟩]
  · rw [windowCounts, if_neg hd, if_neg (mt And.right (mt (h.due_iff u).mpr hd))]

/-- As long as it has not come, the next instant stays the next one. -/
theorem IsFirst.later {S : Set Instant} {t : Instant} {o : Option Instant}
    (h : IsFirst (S ∩ Set.Ioi t) o) (u : Instant) (htu : t ≤ u)
    (hd : ¬ o.any (· ≤ u) = true) : IsFirst (S ∩ Set.Ioi u) o := by
  have hs : S ∩ Set.Ioi u = S ∩ Set.Ioi t := by
    ext v
    refine and_congr_right fun hv => ⟨fun hlt => htu.trans_lt hlt, fun hlt => ?_⟩
    by_contra hle
    exact hd ((h.due_iff u).mpr ⟨v, hv, hlt, not_lt.mp hle⟩)
  rwa [hs]

section Ticks

variable {σ : Type}

def tickCounts (tick : σ → Instant → Nat × σ) (s : σ) : List Instant → List Nat
  | [] => []
  | u :: us => (tick s u).1 :: tickCounts tick (tick s u).2 us

/-- How ticks treat something that waits for an instant: they fire it once if it is due, and
then it waits for what a search finds. In the last second, where searches panic, nothing is
fired. -/
structure Waits (tick : σ → Instant → Nat × σ) (good : σ → Prop) (awaited : σ → Option Instant)
    (next : Instant → Option Instant) : Prop where
  good_tick : ∀ s u, good s → good (tick s u).2
  count : ∀ s u, good s → u.hasNextSecond = true →
    (tick s u).1 = if (awaited s).any (· ≤ u) then 1 else 0
  awaited_tick : ∀ s u, good s → u.hasNextSecond = true →
    awaited (tick s u).2 = if (awaited s).any (· ≤ u) then next u else awaited s
  count_late : ∀ s u, good s → u.hasNextSecond = false → (tick s u).1 = 0

variable {tick : σ → Instant → Nat × σ} {good : σ → Prop} {awaited : σ → Option Instant}
  {next : Instant → Option Instant}

theorem Waits.counts_late (h : Waits tick good awaited next) (S : Set Instant) (t : Instant)
    (s : σ) (hg : good s) (ts : List Instant) (hl : ∀ u ∈ ts, u.hasNextSecond = false) :
    tickCounts tick s ts = windowCounts S t ts := by
  induction ts generalizing s t with
  | nil => rfl
  | cons u ts ih =>
    have hu := hl u List.mem_cons_self
    rw [tickCounts, windowCounts, h.count_late s u hg hu, if_neg (by simp [hu]),
      ih u _ (h.good_tick s u hg) fun v hv => hl v (List.mem_cons_of_mem u hv)]

/-- Where the searches answer the next instant, ticks fire once for every window that holds
an instant. -/
theorem Waits.counts_eq (h : Waits tick good awaited next) (S : Set Instant) (t : Instant)
    (hnext : ∀ u, t ≤ u → (S ∩ Set.Iic u).Nonempty → IsFirst (S ∩ Set.Ioi u) (next u)) (s : σ)
    (hg : good s) (hi : IsFirst (S ∩ Set.Ioi t) (awaited s)) (ts : List Instant)
    (hs : (t :: ts).Pairwise (· ≤ ·)) : tickCounts tick s ts = windowCounts S t ts := by
  induction ts generalizing s t with
  | nil => rfl
  | cons u ts ih =>
    obtain ⟨hle, hs⟩ := List.pairwise_cons.mp hs
    have htu := hle u List.mem_cons_self
    cases hu : u.hasNextSecond with
    | false =>
      apply h.counts_late S t s hg (u :: ts)
      intro v hv
      obtain rfl | hv := List.mem_cons.mp hv
      · exact hu
      · have huv := (List.pairwise_cons.mp hs).1 v hv
        simp only [Instant.hasNextSecond, decide_eq_false_iff_not] at hu ⊢
        lia
    | true =>
      -- the instant that is awaited after the tick is again the first one after it
      have hi' : IsFirst (S ∩ Set.Ioi u) (awaited (tick s u).2) := by
        rw [h.awaited_tick s u hg hu]
        split
        next hd =>
          obtain ⟨v, hv, -, hle⟩ := (hi.due_iff u).mp hd
          exact hnext u htu ⟨v, hv, hle⟩
        next hd => exact hi.later u htu hd
      rw [tickCounts, hi.windowCounts_cons u ts hu, h.count s u hg hu,
        ih u (fun v hv => hnext v (htu.trans hv)) _ (h.good_tick s u hg) hi' hs]

end Ticks

end CronTasks.Cron
