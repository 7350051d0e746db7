import Mathlib.Data.List.Perm.Subperm
import Mathlib.Data.List.Sort

/-!
# Left-to-right maxima

The elements of a list that exceed a bound and every element in front of them. A
counter that only moves forward reacts to these and to nothing else.
-/

namespace ConnectionOrder.LeftMaxima

universe u

variable {α : Type u} [LinearOrder α]

def maxima (bound : α) : List α → List α
  | [] => []
  | a :: s => if bound < a then a :: maxima a s else maxima bound s

theorem maxima_cons_of_lt {bound a : α} (h : bound < a) (s : List α) :
    maxima bound (a :: s) = a :: maxima a s := by
  rw [maxima, if_pos h]

theorem maxima_cons_of_le {bound a : α} (h : a ≤ bound) (s : List α) :
    maxima bound (a :: s) = maxima bound s := by
  rw [maxima, if_neg (not_lt.mpr h)]

/-- A maximum is the first element that is at least as large. -/
theorem mem_maxima_iff {bound a : α} {s : List α} :
    a ∈ maxima bound s ↔ bound < a ∧ s.find? (fun x => a ≤ x) = some a := by
  induction s generalizing bound with
  | nil => simp [maxima]
  | cons x s ih =>
    cases lt_or_ge bound x with
    | inl hx =>
      rw [maxima_cons_of_lt hx, List.mem_cons, ih]
      rcases lt_trichotomy a x with hlt | rfl | hgt
      · simp [hlt.le, hlt.ne, hlt.ne', hlt.not_gt]
      · simp [hx]
      · simp [hgt, hgt.ne', hgt.not_ge, hx.trans hgt]
    | inr hx =>
      rw [maxima_cons_of_le hx, ih]
      refine and_congr_right fun ha => ?_
      rw [List.find?_cons_of_neg]
      simpa using hx.trans_lt ha

theorem pairwise_maxima (bound : α) (s : List α) : (maxima bound s).Pairwise (· < ·) := by
  induction s generalizing bound with
  | nil => exact List.Pairwise.nil
  | cons x s ih =>
    rw [maxima]
    split
    · exact List.pairwise_cons.mpr ⟨fun a ha => (mem_maxima_iff.mp ha).1, ih x⟩
    · exact ih bound

theorem maxima_congr {bound : α} {s t : List α}
    (h : ∀ a, bound < a → (s.find? (fun x => a ≤ x) = some a ↔ t.find? (fun x => a ≤ x) = some a)) :
    maxima bound s = maxima bound t := by
  apply (pairwise_maxima bound s).eq_of_mem_iff (pairwise_maxima bound t)
  intro a
  rw [mem_maxima_iff, mem_maxima_iff]
  exact and_congr_right (h a)

/-- Above a larger bound the maxima are found among the maxima. -/
theorem maxima_maxima {bound larger : α} (h : bound ≤ larger) (s : List α) :
    maxima larger (maxima bound s) = maxima larger s := by
  induction s generalizing bound larger with
  | nil => rfl
  | cons x s ih =>
    cases lt_or_ge bound x with
    | inl hx =>
      rw [maxima_cons_of_lt hx]
      cases lt_or_ge larger x with
      | inl hlarger => rw [maxima_cons_of_lt hlarger, maxima_cons_of_lt hlarger, ih le_rfl]
      | inr hlarger => rw [maxima_cons_of_le hlarger, maxima_cons_of_le hlarger, ih hlarger]
    | inr hx => rw [maxima_cons_of_le hx, maxima_cons_of_le (hx.trans h), ih h]

theorem maxima_sublist (bound : α) (s : List α) : (maxima bound s).Sublist s := by
  induction s generalizing bound with
  | nil => exact List.Sublist.slnil
  | cons x s ih =>
    rw [maxima]
    split
    · exact (ih x).cons_cons x
    · exact (ih bound).cons x

theorem maxima_eq_self {bound : α} {s : List α} (h : (bound :: s).Pairwise (· < ·)) :
    maxima bound s = s := by
  induction s generalizing bound with
  | nil => rfl
  | cons x s ih =>
    rw [List.pairwise_cons] at h
    rw [maxima_cons_of_lt (h.1 x List.mem_cons_self), ih h.2]

/-- Without repetition, no maximum is an element that follows a larger one, if any. -/
theorem notMem_maxima_iff {bound a : α} {s : List α} (h : bound < a) (hnodup : s.Nodup) :
    a ∉ maxima bound s ↔ ∀ before after, s = before ++ a :: after → ∃ b ∈ before, a < b := by
  rw [mem_maxima_iff, and_iff_right h, List.find?_eq_some_iff_append]
  constructor
  · intro hnot before after hs
    by_contra hnone
    refine hnot ⟨decide_eq_true le_rfl, before, after, hs, fun b hb => ?_⟩
    have hdisjoint : b ≠ a := by
      rintro rfl
      rw [hs] at hnodup
      exact (List.nodup_append.mp hnodup).2.2 b hb b List.mem_cons_self rfl
    have hle : b ≤ a := not_lt.mp fun hlt => hnone ⟨b, hb, hlt⟩
    rw [Bool.not_eq_true', decide_eq_false_iff_not, not_le]
    exact lt_of_le_of_ne hle hdisjoint
  · rintro hall ⟨_, before, after, hs, hsmall⟩
    obtain ⟨b, hb, hlt⟩ := hall before after hs
    have hnot := hsmall b hb
    rw [Bool.not_eq_true', decide_eq_false_iff_not, not_le] at hnot
    exact lt_asymm hlt hnot

theorem bound_lt_of_mem_maxima {bound a : α} {s : List α} (h : a ∈ maxima bound s) : bound < a :=
  (mem_maxima_iff.mp h).1

/-- Elements without repetition that all exceed the bound are in increasing order
exactly when all of them are maxima. -/
theorem pairwise_iff_subset_maxima {bound : α} {s : List α} (hnodup : s.Nodup)
    (hbound : ∀ a ∈ s, bound < a) : s.Pairwise (· < ·) ↔ s ⊆ maxima bound s := by
  constructor
  · intro hsorted
    rw [maxima_eq_self (List.pairwise_cons.mpr ⟨hbound, hsorted⟩)]
    exact List.Subset.refl s
  · intro hall
    have hlength : s.length ≤ (maxima bound s).length := (hnodup.subperm hall).length_le
    rw [← (maxima_sublist bound s).eq_of_length_le hlength]
    exact pairwise_maxima bound s

end ConnectionOrder.LeftMaxima
