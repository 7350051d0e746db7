import ConnectionOrder.Machine
import Mathlib.Algebra.Group.Int.Defs

/-!
# How often a condition on steps has held

The count of the steps of a run at which a condition held, and the rule that a
quantity which grows by one at exactly these steps is that count.
-/

namespace ConnectionOrder.Machine

universe u v

variable {σ : Type u} {ι : Type v} {step : σ → ι → σ}

section Times

variable (R : σ → ι → Prop) [∀ s i, Decidable (R s i)]

def times (step : σ → ι → σ) : σ → List ι → Nat
  | _, [] => 0
  | s, i :: is => (if R s i then 1 else 0) + times step (step s i) is

theorem times_append (s : σ) (is js : List ι) :
    times R step s (is ++ js) = times R step s is + times R step (run step s is) js := by
  induction is generalizing s with
  | nil => exact (Nat.zero_add _).symm
  | cons i is ih => rw [List.cons_append, times, times, ih, run_cons, Nat.add_assoc]

theorem times_snoc (s : σ) (is : List ι) (i : ι) :
    times R step s (is ++ [i]) =
      times R step s is + if R (run step s is) i then 1 else 0 := by
  rw [times_append]
  rfl

end Times

namespace Execution

variable {initial : σ → Prop} {permitted : σ → ι → Prop}
variable (x : Execution step initial permitted)

def times (R : σ → ι → Prop) [∀ s i, Decidable (R s i)] : Nat :=
  Machine.times R step x.start x.inputs

/-- A quantity that a step raises by one where `R` holds and keeps elsewhere. -/
theorem eq_add_times {J : σ → Prop} {R : σ → ι → Prop} [∀ s i, Decidable (R s i)] {f : σ → Int}
    (hinit : ∀ s, initial s → J s) (hkeep : ∀ s i, permitted s i → J s → J (step s i))
    (hstep : ∀ s i, permitted s i → J s → f (step s i) = f s + if R s i then 1 else 0) :
    f x.final = f x.start + x.times R := by
  have hboth : J x.final ∧ f x.final = f x.start + x.times R := by
    apply x.history_induction (P := fun is =>
      J (run step x.start is) ∧
        f (run step x.start is) = f x.start + Machine.times R step x.start is)
    · exact ⟨hinit x.start x.begins, (Int.add_zero _).symm⟩
    · rintro is i _ hp ⟨hj, hf⟩
      rw [run_snoc, times_snoc]
      refine ⟨hkeep _ i hp hj, ?_⟩
      rw [hstep _ i hp hj, hf, Int.natCast_add, Int.add_assoc]
      split <;> rfl
  exact hboth.2

end Execution

end ConnectionOrder.Machine
