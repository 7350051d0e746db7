import Mathlib.Algebra.BigOperators.Ring.Finset
import Mathlib.Algebra.BigOperators.Ring.List
import Mathlib.Algebra.Field.Basic
import Mathlib.Algebra.CharZero.Defs
import Mathlib.Tactic.LinearCombination

/-!
# Means of groups and the average over their members

The mean of the means gives every group the same weight, the average over the members
gives each group its size. Where the groups of one size only are left out, the two
differ by the deviations of the others.
-/

namespace ConnectionOrder.WeightedMeans

universe u

structure Sample (K : Type u) where
  size : K
  total : K

variable {K : Type u} [Field K]

def mean (xs : List K) : K := xs.sum / xs.length

def Sample.mean (g : Sample K) : K := g.total / g.size

theorem Sample.mean_eq_zero {g : Sample K} (h : g.total = 0) : g.mean = 0 := by
  rw [Sample.mean, h, zero_div]

def size (gs : List (Sample K)) : K := (gs.map Sample.size).sum

def total (gs : List (Sample K)) : K := (gs.map Sample.total).sum

def average (gs : List (Sample K)) : K := total gs / size gs

/-- How far the members are above `a`, all together. -/
def surplus (a : K) (gs : List (Sample K)) : K := total gs - a * size gs

/-- How far the means are above `a`, each as often as members are missing to `full`. -/
def shortfall (full a : K) (gs : List (Sample K)) : K :=
  (gs.map fun g => (full - g.size) * (g.mean - a)).sum

/-- A list of numbers as a sample. -/
def ofList (xs : List K) : Sample K := ⟨xs.length, xs.sum⟩

theorem surplus_average {gs : List (Sample K)} (h : size gs ≠ 0) :
    surplus (average gs) gs = 0 := by
  rw [surplus, average, div_mul_cancel₀ _ h, sub_self]

/-- The members that are there and those that are missing make full groups. -/
theorem sum_deviations (full a : K) {gs : List (Sample K)} (h : ∀ g ∈ gs, g.size ≠ 0) :
    full * (gs.map fun g => g.mean - a).sum = shortfall full a gs + surplus a gs := by
  induction gs with
  | nil => simp [shortfall, surplus, total, size]
  | cons g gs ih =>
    have hrest := ih fun g' hg' => h g' (List.mem_cons_of_mem g hg')
    have hmean : g.mean * g.size = g.total := div_mul_cancel₀ _ (h g List.mem_cons_self)
    simp only [shortfall, surplus, total, size, List.map_cons, List.sum_cons] at hrest ⊢
    linear_combination hrest + hmean

section CharZero

variable [CharZero K]

theorem length_ne_zero {α : Type*} {xs : List α} (h : xs ≠ []) : (xs.length : K) ≠ 0 :=
  Nat.cast_ne_zero.mpr fun hzero => h (List.length_eq_zero_iff.mp hzero)

theorem mean_sub {xs : List K} (h : xs ≠ []) (a : K) :
    mean xs - a = (xs.map fun x => x - a).sum / xs.length := by
  have hsum : (xs.map fun x => x - a).sum = xs.sum - xs.length * a := by
    clear h
    induction xs with
    | nil => simp
    | cons x xs ih =>
      rw [List.map_cons, List.sum_cons, List.sum_cons, List.length_cons, Nat.cast_succ]
      linear_combination ih
  rw [hsum, sub_div, mul_div_cancel_left₀ _ (length_ne_zero h), mean]

theorem mean_means_sub {gs : List (Sample K)} (hne : gs ≠ []) (h : ∀ g ∈ gs, g.size ≠ 0)
    {full : K} (hfull : full ≠ 0) (a : K) :
    mean (gs.map Sample.mean) - a = (shortfall full a gs + surplus a gs) / gs.length / full := by
  have hmap : gs.map Sample.mean ≠ [] := fun hnil => hne (List.map_eq_nil_iff.mp hnil)
  rw [mean_sub hmap, List.map_map, List.length_map, ← sum_deviations full a h, mul_div_assoc,
    mul_div_cancel_left₀ _ hfull]
  rfl

/-- Groups that are full do not count here. -/
theorem mean_means_iff {gs : List (Sample K)} (hne : gs ≠ []) (h : ∀ g ∈ gs, g.size ≠ 0)
    (hsize : size gs ≠ 0) {full : K} (hfull : full ≠ 0) :
    mean (gs.map Sample.mean) = average gs ↔ shortfall full (average gs) gs = 0 := by
  rw [← sub_eq_zero, mean_means_sub hne h hfull, surplus_average hsize, add_zero, div_div,
    div_eq_zero_iff]
  exact or_iff_left (mul_ne_zero (length_ne_zero hne) hfull)

/-- Lists of groups, whose means are taken list by list. -/
theorem mean_mean_means_iff {gss : List (List (Sample K))} (hne : gss ≠ [])
    (hnes : ∀ gs ∈ gss, gs ≠ []) (h : ∀ gs ∈ gss, ∀ g ∈ gs, g.size ≠ 0) {full : K}
    (hfull : full ≠ 0) (a : K) :
    mean (gss.map fun gs => mean (gs.map Sample.mean)) = a ↔
      (gss.map fun gs => (shortfall full a gs + surplus a gs) / gs.length).sum = 0 := by
  have hdeviations : (gss.map fun gs => mean (gs.map Sample.mean)).map (fun x => x - a) =
      gss.map fun gs => (shortfall full a gs + surplus a gs) / gs.length / full := by
    rw [List.map_map]
    exact List.map_congr_left fun gs hgs => mean_means_sub (hnes gs hgs) (h gs hgs) hfull a
  have hmap : (gss.map fun gs => mean (gs.map Sample.mean)) ≠ [] :=
    fun hnil => hne (List.map_eq_nil_iff.mp hnil)
  rw [← sub_eq_zero, mean_sub hmap, hdeviations, List.length_map]
  simp only [div_eq_mul_inv _ full]
  rw [List.sum_map_mul_right, div_eq_zero_iff, mul_eq_zero]
  simp only [length_ne_zero hne, inv_ne_zero hfull, or_false]

omit [CharZero K] in
theorem size_ofList (xss : List (List K)) : size (xss.map ofList) = (xss.flatten.length : K) := by
  rw [size, List.map_map, List.length_flatten, Nat.cast_list_sum, List.map_map]
  rfl

omit [CharZero K] in
theorem average_ofList (xss : List (List K)) : average (xss.map ofList) = mean xss.flatten := by
  rw [average, size_ofList, mean, List.sum_flatten, total, List.map_map]
  rfl

/-- A mean of means is the mean where the lists that are not of one length balance. -/
theorem mean_flatten_iff {xss : List (List K)} (hne : xss ≠ []) (hnes : ∀ xs ∈ xss, xs ≠ [])
    {full : K} (hfull : full ≠ 0) :
    mean (xss.map mean) = mean xss.flatten ↔
      shortfall full (average (xss.map ofList)) (xss.map ofList) = 0 := by
  have hmeans : xss.map mean = (xss.map ofList).map Sample.mean := by
    rw [List.map_map]
    rfl
  have hflat : xss.flatten ≠ [] := by
    intro hnil
    obtain ⟨xs, hxs⟩ := List.exists_mem_of_ne_nil xss hne
    exact hnes xs hxs (List.flatten_eq_nil_iff.mp hnil xs hxs)
  rw [hmeans, ← average_ofList]
  refine mean_means_iff (fun hnil => hne (List.map_eq_nil_iff.mp hnil)) ?_ ?_ hfull
  · intro g hg
    obtain ⟨xs, hxs, rfl⟩ := List.mem_map.mp hg
    exact length_ne_zero (hnes xs hxs)
  · rw [size_ofList]
    exact length_ne_zero hflat

end CharZero

end ConnectionOrder.WeightedMeans
