import Mathlib.Algebra.BigOperators.Group.List.Basic
import Mathlib.Data.Nat.ModEq
import Mathlib.Data.UInt

/-!
# Dividing piece by piece

A list of amounts is divided by a size, once amount by amount and once as a whole.
The results differ by what the remainders add up to. Counters of w bits hold both
modulo 2 ^ w.
-/

namespace ConnectionOrder.Quotients

def whole (size : Nat) (amounts : List Nat) : Nat := (amounts.map (· / size)).sum

def excess (size : Nat) (amounts : List Nat) : Nat := (amounts.map (· % size)).sum

theorem whole_append (size : Nat) (amounts more : List Nat) :
    whole size (amounts ++ more) = whole size amounts + whole size more := by
  rw [whole, List.map_append, List.sum_append, whole, whole]

theorem sum_eq (size : Nat) (amounts : List Nat) :
    amounts.sum = size * whole size amounts + excess size amounts := by
  induction amounts with
  | nil => rfl
  | cons a amounts ih =>
    rw [whole, excess] at ih ⊢
    rw [List.sum_cons, List.map_cons, List.map_cons, List.sum_cons, List.sum_cons, Nat.mul_add, ih]
    have hdiv := Nat.div_add_mod a size
    omega

/-- The remainders make up no whole size, and the total fits modulo `bound`. Without
an overflow this says that the remainders add up to less than one size. -/
def Aligned (bound size : Nat) (amounts : List Nat) : Prop :=
  excess size amounts % bound < size ∧
  size * (whole size amounts % bound) + excess size amounts % bound < bound

instance (bound size : Nat) (amounts : List Nat) : Decidable (Aligned bound size amounts) :=
  inferInstanceAs (Decidable (_ ∧ _))

theorem aligned_iff_of_lt {bound size : Nat} {amounts : List Nat} (hsize : 0 < size)
    (h : amounts.sum < bound) : Aligned bound size amounts ↔ excess size amounts < size := by
  have hsum := sum_eq size amounts
  have hwhole : whole size amounts ≤ size * whole size amounts := Nat.le_mul_of_pos_left _ hsize
  rw [Aligned, Nat.mod_eq_of_lt (a := excess size amounts) (by omega),
    Nat.mod_eq_of_lt (a := whole size amounts) (by omega)]
  exact and_iff_left (by omega)

theorem whole_mod_eq_iff {bound size : Nat} (hbound : 0 < bound) (hsize : 0 < size)
    (amounts : List Nat) :
    whole size amounts % bound = amounts.sum % bound / size ↔ Aligned bound size amounts := by
  have hrest := Nat.mod_lt (excess size amounts) hbound
  have hsum : amounts.sum ≡
      size * (whole size amounts % bound) + excess size amounts % bound [MOD bound] := by
    rw [sum_eq size amounts]
    exact ((Nat.mod_modEq _ _).symm.mul_left size).add (Nat.mod_modEq _ _).symm
  constructor
  · intro heq
    have hdiv := Nat.div_add_mod (amounts.sum % bound) size
    have hmod := Nat.mod_lt (amounts.sum % bound) hsize
    have htotal := Nat.mod_lt amounts.sum hbound
    rw [← heq] at hdiv
    -- Both remainders complete the same multiple of size to the same total.
    have hsame : excess size amounts % bound ≡ amounts.sum % bound % size [MOD bound] := by
      refine Nat.ModEq.add_left_cancel' (size * (whole size amounts % bound)) (hsum.symm.trans ?_)
      rw [hdiv]
      exact (Nat.mod_modEq _ _).symm
    have hremainder := hsame.eq_of_lt_of_lt hrest (by omega)
    exact ⟨by omega, by omega⟩
  · rintro ⟨hless, hfits⟩
    have htotal : amounts.sum % bound = size * (whole size amounts % bound) +
        excess size amounts % bound := Nat.mod_eq_of_modEq hsum hfits
    rw [htotal, Nat.mul_add_div hsize, Nat.div_eq_of_lt hless, Nat.add_zero]

/-- Two lists with the same total. -/
theorem whole_modEq_iff {bound size : Nat} (hsize : 0 < size) {amounts others : List Nat}
    (h : amounts.sum = others.sum) : whole size amounts ≡ whole size others [MOD bound] ↔
      excess size amounts ≡ excess size others [MOD size * bound] := by
  rw [sum_eq size amounts, sum_eq size others] at h
  rw [← Nat.ModEq.mul_left_cancel_iff' (c := size) (by omega)]
  constructor
  · intro hwhole
    exact hwhole.add_left_cancel (h ▸ Nat.ModEq.refl _)
  · intro hexcess
    exact hexcess.add_right_cancel (h ▸ Nat.ModEq.refl _)

/-! ## Counters of 64 bits -/

theorem counted_eq_iff {size : Nat} (hsize : 0 < size) (hbound : size < 2 ^ 64)
    (amounts : List Nat) :
    UInt64.ofNat (whole size amounts) = UInt64.ofNat amounts.sum / UInt64.ofNat size ↔
      Aligned (2 ^ 64) size amounts := by
  rw [← whole_mod_eq_iff (by decide) hsize, ← UInt64.toNat_inj, UInt64.toNat_div,
    UInt64.toNat_ofNat', UInt64.toNat_ofNat', UInt64.toNat_ofNat', Nat.mod_eq_of_lt hbound]

theorem counted_congr_iff {size : Nat} (hsize : 0 < size) {amounts others : List Nat}
    (h : amounts.sum = others.sum) :
    UInt64.ofNat (whole size amounts) = UInt64.ofNat (whole size others) ↔
      excess size amounts ≡ excess size others [MOD size * 2 ^ 64] := by
  rw [← whole_modEq_iff hsize h, ← UInt64.toNat_inj, UInt64.toNat_ofNat', UInt64.toNat_ofNat']
  rfl

end ConnectionOrder.Quotients
