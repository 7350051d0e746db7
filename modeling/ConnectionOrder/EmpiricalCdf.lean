import Mathlib.Algebra.Order.Field.Basic
import Mathlib.Algebra.Order.Field.Rat
import Mathlib.Data.List.Sort
import Mathlib.Tactic.FieldSimp
import Mathlib.Tactic.Linarith
import Mathlib.Tactic.Ring

/-!
# The empirical distribution of a sample

The sorted sample against 1 / n, 2 / n, …, n / n: the highest point that is not to the
right of a value shows which part of the sample is not above it.
-/

namespace ConnectionOrder.EmpiricalCdf

universe u

variable {α : Type u} [LinearOrder α]

def sorted (xs : List α) : List α := xs.mergeSort fun x y => decide (x ≤ y)

/-- The points of a sorted sample with `k` of its `n` values in front. -/
def pointsFrom (n : Nat) : Nat → List α → List (α × ℚ)
  | _, [] => []
  | k, x :: xs => (x, ((k + 1 : Nat) : ℚ) / n) :: pointsFrom n (k + 1) xs

def points (xs : List α) : List (α × ℚ) := pointsFrom xs.length 0 (sorted xs)

/-- The part of the sample that is not above `v`. -/
def fraction (xs : List α) (v : α) : ℚ := ((xs.countP fun x => x ≤ v : Nat) : ℚ) / xs.length

/-- The highest point that is not to the right of `v`. -/
def height : List (α × ℚ) → α → ℚ
  | [], _ => 0
  | p :: ps, v => if p.1 ≤ v then max p.2 (height ps v) else height ps v

theorem pairwise_sorted (xs : List α) : (sorted xs).Pairwise (· ≤ ·) := by
  have h : (sorted xs).Pairwise fun x y => decide (x ≤ y) = true := by
    apply List.pairwise_mergeSort
    · intro x y z hxy hyz
      exact decide_eq_true (le_trans (of_decide_eq_true hxy) (of_decide_eq_true hyz))
    · intro x y
      rw [Bool.or_eq_true, decide_eq_true_eq, decide_eq_true_eq]
      exact le_total x y
  exact h.imp fun hle => of_decide_eq_true hle

theorem perm_sorted (xs : List α) : (sorted xs).Perm xs := List.mergeSort_perm xs _

theorem height_pointsFrom {n k : Nat} {xs : List α} (h : xs.Pairwise (· ≤ ·)) (v : α) :
    height (pointsFrom n k xs) v =
      if xs.countP (fun x => x ≤ v) = 0 then 0
      else ((k + xs.countP (fun x => x ≤ v) : Nat) : ℚ) / n := by
  induction xs generalizing k with
  | nil => rfl
  | cons x xs ih =>
    obtain ⟨hfirst, hrest⟩ := List.pairwise_cons.mp h
    rw [pointsFrom, height, ih hrest]
    dsimp only
    by_cases hx : x ≤ v
    · have hcount : (x :: xs).countP (fun x => decide (x ≤ v)) =
          xs.countP (fun x => decide (x ≤ v)) + 1 :=
        List.countP_cons_of_pos (decide_eq_true hx)
      rw [if_pos hx, hcount, if_neg (Nat.succ_ne_zero _)]
      have hpos : (0 : ℚ) ≤ ((k + 1 : Nat) : ℚ) / n :=
        div_nonneg (Nat.cast_nonneg _) (Nat.cast_nonneg _)
      split
      · rename_i hzero
        rw [hzero, Nat.zero_add]
        exact max_eq_left hpos
      · rw [Nat.add_right_comm k 1, Nat.add_assoc k]
        apply max_eq_right
        apply div_le_div_of_nonneg_right _ (Nat.cast_nonneg n)
        exact Nat.cast_le.mpr (by omega)
    · have hnone : ∀ y ∈ x :: xs, ¬decide (y ≤ v) = true := by
        intro y hy hle
        rcases List.mem_cons.mp hy with rfl | hlater
        · exact hx (of_decide_eq_true hle)
        · exact hx (le_trans (hfirst y hlater) (of_decide_eq_true hle))
      have hzero := List.countP_eq_zero.mpr hnone
      have hlater := List.countP_eq_zero.mpr fun y hy => hnone y (List.mem_cons_of_mem x hy)
      rw [if_neg hx, hlater, hzero]
      rfl

theorem height_points (xs : List α) (v : α) : height (points xs) v = fraction xs v := by
  have hcount : (sorted xs).countP (fun x => decide (x ≤ v)) =
      xs.countP fun x => decide (x ≤ v) := (perm_sorted xs).countP_eq _
  rw [points, height_pointsFrom (pairwise_sorted xs), hcount, Nat.zero_add, fraction]
  split
  · rename_i hzero
    rw [hzero, Nat.cast_zero, zero_div]
  · rfl

/-- One value more moves the distribution by no more than its weight. -/
theorem abs_fraction_snoc {xs : List α} (hne : xs ≠ []) (x v : α) :
    |fraction (xs ++ [x]) v - fraction xs v| ≤ 1 / (xs.length + 1) := by
  have hpos : (0 : ℚ) < xs.length := Nat.cast_pos.mpr (List.length_pos_iff.mpr hne)
  have hcount : ((xs.countP fun x => x ≤ v : Nat) : ℚ) ≤ xs.length :=
    Nat.cast_le.mpr List.countP_le_length
  have hlow : (0 : ℚ) ≤ (xs.countP fun x => x ≤ v : Nat) := Nat.cast_nonneg _
  have hsnoc : fraction (xs ++ [x]) v =
      ((xs.countP fun x => x ≤ v : Nat) + if x ≤ v then 1 else 0) / (xs.length + 1) := by
    rw [fraction, List.countP_append, List.countP_singleton, List.length_append,
      List.length_singleton]
    push_cast
    simp only [decide_eq_true_eq]
  rw [hsnoc, fraction]
  generalize ((xs.countP fun x => x ≤ v : Nat) : ℚ) = k at *
  generalize (xs.length : ℚ) = n at *
  have hstep : ∀ e : ℚ, 0 ≤ e → e ≤ 1 → |(k + e) / (n + 1) - k / n| ≤ 1 / (n + 1) := by
    intro e hlow' hhigh
    have hsub : (k + e) / (n + 1) - k / n = (e * n - k) / n / (n + 1) := by
      field_simp
      ring
    have hpart : |(e * n - k) / n| ≤ 1 := by
      rw [abs_div, abs_of_pos hpos, div_le_one hpos, abs_le]
      constructor <;> nlinarith
    have hnext : 0 < n + 1 := by linarith
    rw [hsub, abs_div, abs_of_pos hnext]
    exact div_le_div_of_nonneg_right hpart (le_of_lt hnext)
  split
  · exact hstep 1 zero_le_one (le_refl 1)
  · exact hstep 0 (le_refl 0) zero_le_one

end ConnectionOrder.EmpiricalCdf
