import CronTasks.Outcome
import Mathlib.Order.Defs.Unbundled

namespace CronTasks.Act

variable {σ α : Type}

theorem andThen_of_success {first : Act σ} (second : Act σ) {s t : σ} (h : first s = (.success, t)) :
    first.andThen second s = second t := by
  simp only [andThen, h]

theorem each_isolated_appends {ε : Type} (act : α → Act σ) (state : List ε → σ) (own : α → List ε)
    (as : List α) (h : ∀ a ∈ as, ∀ record, (act a (state record)).2 = state (record ++ own a))
    (record : List ε) :
    each (fun a => (act a).isolated) as (state record) =
      (.success, state (record ++ as.flatMap own)) := by
  induction as generalizing record with
  | nil => simp [each]
  | cons a as ih =>
    have ha := h a List.mem_cons_self record
    have has := ih (fun b hb => h b (List.mem_cons_of_mem a hb)) (record ++ own a)
    rw [List.flatMap_cons, ← List.append_assoc, ← has, ← ha]
    rfl

/-- An act keeps to a relation if the state it leaves behind is so related to the one before. -/
def Within (R : σ → σ → Prop) (act : Act σ) : Prop := ∀ s, R s (act s).2

namespace Within

variable {R : σ → σ → Prop} [IsTrans σ R] {first second : Act σ} {act : α → Act σ}

theorem andThen (h : first.Within R) (h' : second.Within R) : (first.andThen second).Within R := by
  intro s
  have hs := h s
  simp only [Act.andThen]
  split
  next hp => rwa [hp] at hs
  next hp => exact IsTrans.trans s _ _ (by rwa [hp] at hs) (h' _)

theorem each_isolated [Std.Refl R] (h : ∀ a, (act a).Within R) (as : List α) :
    (each (fun a => (act a).isolated) as).Within R := by
  induction as with
  | nil => exact fun s => Std.Refl.refl s
  | cons a as ih => exact andThen (h a) ih

end Within

end CronTasks.Act
