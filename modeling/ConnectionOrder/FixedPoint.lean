import ConnectionOrder.PyText
import Mathlib.Algebra.Order.Floor.Ring
import Mathlib.Algebra.Order.Ring.Rat
import Mathlib.Data.Rat.Floor

/-!
# Numbers printed with a fixed number of places

`%.2f` and its like round an exact number to the nearest decimal, to the even one of
two that are equally near. What float makes of the text is the rounded number.
-/

namespace ConnectionOrder.FixedPoint

open PyText
open Scan (scanSign isDigit_toDigits takeWhile_append_of)

/-- The nearest integer, the even one of two. A tie is one of the exact number; printf
rounds the double, which is seldom one (0.025 prints as 0.03). -/
def roundHalfEven (x : ℚ) : Int :=
  if x - ⌊x⌋ < 1 / 2 then ⌊x⌋
  else if 1 / 2 < x - ⌊x⌋ then ⌊x⌋ + 1
  else if ⌊x⌋ % 2 = 0 then ⌊x⌋
  else ⌊x⌋ + 1

/-- The digits of |x| without the point. -/
def scaled (places : Nat) (x : ℚ) : Nat := (roundHalfEven (|x| * 10 ^ places)).toNat

def wholeDigits (places n : Nat) : Text := Nat.toDigits 10 (n / 10 ^ places)

def placeDigits (places n : Nat) : Text :=
  (Nat.toDigits 10 (n % 10 ^ places)).leftpad places '0'

/-- `%.*f` of printf, for at least one place. -/
def fixed (places : Nat) (x : ℚ) : Text :=
  (if x < 0 then ['-'] else []) ++
    (wholeDigits places (scaled places x) ++ '.' :: placeDigits places (scaled places x))

/-- The number that `fixed` shows. -/
def rounded (places : Nat) (x : ℚ) : ℚ :=
  (if x < 0 then -1 else 1) * (scaled places x : ℚ) / 10 ^ places

/-! ## float -/

def scanFraction : Text → Text × Text
  | '.' :: s => (s.takeWhile Char.isDigit, s.dropWhile Char.isDigit)
  | s => ([], s)

def scanExponent : Text → Option Int
  | [] => some 0
  | c :: s =>
    if c = 'e' ∨ c = 'E' then
      let signed := scanSign s
      if signed.2 ≠ [] ∧ signed.2.all Char.isDigit then
        let magnitude : Int := Nat.ofDigitChars 10 signed.2 0
        some (if signed.1 then -magnitude else magnitude)
      else none
    else none

/-- float of a decimal numeral in ASCII digits, as an exact number; `none` is a ValueError.
Underscores, other digits, inf and nan, which float takes too, are not modelled. -/
def float (s : Text) : Option ℚ :=
  let signed := scanSign (strip s)
  let whole := signed.2.takeWhile Char.isDigit
  let fraction := scanFraction (signed.2.dropWhile Char.isDigit)
  if whole = [] ∧ fraction.1 = [] then none
  else
    (scanExponent fraction.2).map fun exponent =>
      (if signed.1 then -1 else 1) * (Nat.ofDigitChars 10 (whole ++ fraction.1) 0 : ℚ) /
        10 ^ fraction.1.length * 10 ^ exponent

/-! ## The digits of a printed number -/

section Digits

variable {places : Nat} (n : Nat)

theorem isDigit_wholeDigits {c : Char} (h : c ∈ wholeDigits places n) : c.isDigit = true :=
  isDigit_toDigits h

theorem isDigit_placeDigits {c : Char} (h : c ∈ placeDigits places n) : c.isDigit = true := by
  rw [placeDigits, List.leftpad, List.mem_append] at h
  cases h with
  | inl hzero => exact List.eq_of_mem_replicate hzero ▸ rfl
  | inr hdigit => exact isDigit_toDigits hdigit

theorem wholeDigits_ne_nil : wholeDigits places n ≠ [] := Nat.toDigits_ne_nil

theorem length_placeDigits (hplaces : 0 < places) : (placeDigits places n).length = places := by
  have hlt : n % 10 ^ places < 10 ^ places := Nat.mod_lt n (Nat.pow_pos (by decide))
  rw [placeDigits, List.length_leftpad]
  exact max_eq_left ((Nat.length_toDigits_le_iff (by decide) hplaces).mpr hlt)

/-- The two groups are the digits of one number. -/
theorem ofDigitChars_groups (hplaces : 0 < places) :
    Nat.ofDigitChars 10 (wholeDigits places n ++ placeDigits places n) 0 = n := by
  have hplace : Nat.ofDigitChars 10 (placeDigits places n) 0 = n % 10 ^ places := by
    rw [placeDigits, List.leftpad, Nat.ofDigitChars_append, Nat.ofDigitChars_replicate_zero,
      Nat.mul_zero, Nat.ofDigitChars_ten_toDigits]
  rw [Nat.ofDigitChars_append, wholeDigits, Nat.ofDigitChars_ten_toDigits,
    Nat.ofDigitChars_eq_ofDigitChars_zero, hplace, length_placeDigits n hplaces]
  exact Nat.div_add_mod n (10 ^ places)

end Digits

/-! ## Reading a printed number -/

/-- The characters of a printed number that is not negative. -/
def isNumeral (c : Char) : Bool := c.isDigit || c = '.'

/-- The characters of a printed number. -/
def isSigned (c : Char) : Bool := isNumeral c || c = '-'

theorem isNumeral_of_isDigit {c : Char} (h : c.isDigit = true) : isNumeral c = true := by
  rw [isNumeral, h]
  rfl

theorem isSigned_of_isNumeral {c : Char} (h : isNumeral c = true) : isSigned c = true := by
  rw [isSigned, h]
  rfl

theorem isSpace_of_isSigned {c : Char} (h : isSigned c = true) : isSpace c = false := by
  have hrange : 45 ≤ c.toNat ∧ c.toNat ≤ 57 := by
    simp only [isSigned, isNumeral, Bool.or_eq_true, decide_eq_true_eq] at h
    rcases h with (hdigit | rfl) | rfl
    · simp only [Char.isDigit, ge_iff_le, Bool.and_eq_true, decide_eq_true_eq] at hdigit
      have hlow : 48 ≤ c.toNat := hdigit.1
      exact ⟨by omega, hdigit.2⟩
    · decide
    · decide
  simp [isSpace]
  omega

theorem isSpace_of_isNumeral {c : Char} (h : isNumeral c = true) : isSpace c = false :=
  isSpace_of_isSigned (isSigned_of_isNumeral h)

theorem fixed_of_nonneg {places : Nat} {x : ℚ} (h : 0 ≤ x) : fixed places x =
    wholeDigits places (scaled places x) ++ '.' :: placeDigits places (scaled places x) := by
  rw [fixed, if_neg (not_lt.mpr h), List.nil_append]

theorem isNumeral_groups {places n : Nat} {c : Char}
    (hc : c ∈ wholeDigits places n ++ '.' :: placeDigits places n) : isNumeral c = true := by
  rw [List.mem_append, List.mem_cons] at hc
  rcases hc with hwhole | rfl | hplace
  · exact isNumeral_of_isDigit (isDigit_wholeDigits n hwhole)
  · rfl
  · exact isNumeral_of_isDigit (isDigit_placeDigits n hplace)

theorem isNumeral_fixed {places : Nat} {x : ℚ} (h : 0 ≤ x) {c : Char} (hc : c ∈ fixed places x) :
    isNumeral c = true := by
  rw [fixed_of_nonneg h] at hc
  exact isNumeral_groups hc

theorem isSigned_fixed {places : Nat} {x : ℚ} {c : Char} (hc : c ∈ fixed places x) :
    isSigned c = true := by
  rw [fixed, List.mem_append] at hc
  rcases hc with hsign | hgroups
  · split at hsign
    · rw [List.mem_singleton.mp hsign]
      rfl
    · cases hsign
  · exact isSigned_of_isNumeral (isNumeral_groups hgroups)

theorem fixed_ne_nil (places : Nat) (x : ℚ) : fixed places x ≠ [] := by simp [fixed]

theorem isSigned_decimal {n : Int} {c : Char} (hc : c ∈ Scan.decimal n) : isSigned c = true := by
  rcases Scan.decimal_chars hc with rfl | hdigit
  · rfl
  · exact isSigned_of_isNumeral (isNumeral_of_isDigit hdigit)

theorem isNumeral_decimal {n : Int} (h : 0 ≤ n) {c : Char} (hc : c ∈ Scan.decimal n) :
    isNumeral c = true := by
  rw [Scan.decimal, if_neg (not_lt.mpr h)] at hc
  exact isNumeral_of_isDigit (isDigit_toDigits hc)

theorem decimal_ne_nil (n : Int) : Scan.decimal n ≠ [] := by
  rw [Scan.decimal]
  split
  · exact List.cons_ne_nil _ _
  · exact Nat.toDigits_ne_nil

theorem strip_signed {s : Text} (hne : s ≠ []) (h : ∀ c ∈ s, isSigned c = true) :
    strip s = s := by
  refine strip_trimmed hne ⟨fun c hc => ?_, fun c hc => ?_⟩
  · exact isSpace_of_isSigned (h c (List.mem_of_mem_head? hc))
  · exact isSpace_of_isSigned (h c (List.mem_of_mem_getLast? hc))

theorem scanSign_numeral {s : Text} (h : ∀ c ∈ s, isNumeral c = true) :
    scanSign s = (false, s) := by
  cases s with
  | nil => rfl
  | cons c s =>
    have hc := h c List.mem_cons_self
    refine Scan.scanSign_unsigned ?_ ?_ s
    · rintro rfl
      cases hc
    · rintro rfl
      cases hc

/-- The sign that printf puts in front of a numeral. -/
theorem scanSign_signed (negative : Bool) {s : Text} (h : ∀ c ∈ s, isNumeral c = true) :
    scanSign ((if negative = true then ['-'] else []) ++ s) = (negative, s) := by
  cases negative with
  | true => rfl
  | false => exact scanSign_numeral h

theorem isSigned_append (negative : Bool) {s : Text} (h : ∀ c ∈ s, isNumeral c = true) :
    ∀ c ∈ (if negative = true then ['-'] else []) ++ s, isSigned c = true := by
  intro c hc
  rcases List.mem_append.mp hc with hsign | hc
  · split at hsign
    · rw [List.mem_singleton.mp hsign]
      rfl
    · cases hsign
  · exact isSigned_of_isNumeral (h c hc)

/-- A sign, digits, a point and digits. -/
theorem float_groups (negative : Bool) {whole places : Text} (hne : whole ≠ [])
    (hwhole : ∀ c ∈ whole, c.isDigit = true) (hplaces : ∀ c ∈ places, c.isDigit = true) :
    float ((if negative = true then ['-'] else []) ++ (whole ++ '.' :: places)) =
      some ((if negative = true then -1 else 1) *
        (Nat.ofDigitChars 10 (whole ++ places) 0 : ℚ) / 10 ^ places.length) := by
  have hnumeral : ∀ c ∈ whole ++ '.' :: places, isNumeral c = true := by
    intro c hc
    rw [List.mem_append, List.mem_cons] at hc
    rcases hc with hc | rfl | hc
    · exact isNumeral_of_isDigit (hwhole c hc)
    · rfl
    · exact isNumeral_of_isDigit (hplaces c hc)
  have hpoint : ∀ c ∈ ('.' :: places).head?, c.isDigit = false := by
    rintro c ⟨⟩
    rfl
  obtain ⟨htake, hdrop⟩ := takeWhile_append_of hwhole hpoint
  rw [float, strip_signed (by simp) (isSigned_append negative hnumeral),
    scanSign_signed negative hnumeral]
  simp only [htake, hdrop, scanFraction, List.takeWhile_eq_self_iff.mpr hplaces,
    List.dropWhile_eq_nil_iff.mpr hplaces, hne, false_and, if_false, scanExponent]
  simp

/-- A sign and digits. -/
theorem float_digits (negative : Bool) {digits : Text} (hne : digits ≠ [])
    (hdigits : ∀ c ∈ digits, c.isDigit = true) :
    float ((if negative = true then ['-'] else []) ++ digits) =
      some ((if negative = true then -1 else 1) * (Nat.ofDigitChars 10 digits 0 : ℚ)) := by
  have hnumeral : ∀ c ∈ digits, isNumeral c = true :=
    fun c hc => isNumeral_of_isDigit (hdigits c hc)
  rw [float, strip_signed (by simp [hne]) (isSigned_append negative hnumeral),
    scanSign_signed negative hnumeral]
  simp only [List.takeWhile_eq_self_iff.mpr hdigits, List.dropWhile_eq_nil_iff.mpr hdigits,
    scanFraction, hne, false_and, if_false, scanExponent]
  simp

theorem float_fixed {places : Nat} (hplaces : 0 < places) (x : ℚ) :
    float (fixed places x) = some (rounded places x) := by
  have hwhole : ∀ c ∈ wholeDigits places (scaled places x), c.isDigit = true :=
    fun _ => isDigit_wholeDigits _
  have hplace : ∀ c ∈ placeDigits places (scaled places x), c.isDigit = true :=
    fun _ => isDigit_placeDigits _
  have hgroups := float_groups (decide (x < 0)) (wholeDigits_ne_nil _) hwhole hplace
  rw [ofDigitChars_groups _ hplaces, length_placeDigits _ hplaces] at hgroups
  rw [fixed, rounded]
  simpa only [decide_eq_true_eq] using hgroups

/-- `%d` -/
theorem float_decimal (n : Int) : float (Scan.decimal n) = some (n : ℚ) := by
  have hdigits := float_digits (decide (n < 0)) Nat.toDigits_ne_nil
    fun _ => isDigit_toDigits (n := n.natAbs)
  rw [Nat.ofDigitChars_ten_toDigits] at hdigits
  simp only [decide_eq_true_eq] at hdigits
  rw [Scan.decimal]
  split
  · rename_i hneg
    have habs : (n.natAbs : ℚ) = -n := by
      rw [← Int.cast_natCast, Int.ofNat_natAbs_of_nonpos (Int.le_of_lt hneg), Int.cast_neg]
    rw [if_pos hneg, if_pos hneg, habs, neg_one_mul, neg_neg] at hdigits
    exact hdigits
  · rename_i hpos
    have habs : (n.natAbs : ℚ) = n := by
      rw [← Int.cast_natCast, Int.natAbs_of_nonneg (Int.not_lt.mp hpos)]
    rw [if_neg hpos, if_neg hpos, habs, one_mul, List.nil_append] at hdigits
    exact hdigits

end ConnectionOrder.FixedPoint
