import Mathlib.Data.List.Basic
import Mathlib.Data.List.TakeWhile

/-!
# Formatted output and input of C

The directives of printf and scanf that the programs use, on the characters of a
C string. A conversion that scanf assigns goes through strtol, which clamps to a
64-bit long, and is then cut to an int.
-/

namespace ConnectionOrder.Scan

def intMin : Int := -2147483648
def intMax : Int := 2147483647

/-- The int that int arithmetic leaves where it overflows and the overflow wraps. -/
def wrap (n : Int) : Int := n.bmod 4294967296

theorem wrap_of_range {n : Int} (hlow : 0 ≤ n) (hhigh : n ≤ intMax) : wrap n = n := by
  rw [wrap, intMax] at *
  exact Int.bmod_eq_of_le (by omega) (by omega)

/-- `text c` is an ordinary character, `blank` white space in the format, `number`
a `%d`, or a `%*d` where nothing is assigned. -/
inductive Directive where
  | text (c : Char)
  | blank
  | number (assigned : Bool)

/-- `%d` of printf. -/
def decimal (n : Int) : List Char :=
  if n < 0 then '-' :: Nat.toDigits 10 n.natAbs else Nat.toDigits 10 n.natAbs

def isSpace (c : Char) : Bool :=
  c = ' ' || c = '\t' || c = '\n' || c = '\x0b' || c = '\x0c' || c = '\x0d'

def skipSpace (s : List Char) : List Char := s.dropWhile isSpace

def toInt (n : Int) : Int :=
  (max (-9223372036854775808) (min n 9223372036854775807)).bmod 4294967296

def scanSign : List Char → Bool × List Char
  | '-' :: s => (true, s)
  | '+' :: s => (false, s)
  | s => (false, s)

def scanNumber (s : List Char) : Option (Int × List Char) :=
  let signed := scanSign (skipSpace s)
  let digits := signed.2.takeWhile Char.isDigit
  if digits = [] then none
  else
    let magnitude : Int := Nat.ofDigitChars 10 digits 0
    some (if signed.1 then -magnitude else magnitude, signed.2.dropWhile Char.isDigit)

/-- The values that sscanf assigns; their number is what it returns. -/
def sscanf : List Directive → List Char → List Int
  | [], _ => []
  | .text _ :: _, [] => []
  | .text c :: ds, a :: s => if a = c then sscanf ds s else []
  | .blank :: ds, s => sscanf ds (skipSpace s)
  | .number assigned :: ds, s =>
    match scanNumber s with
    | none => []
    | some (n, s) => if assigned then toInt n :: sscanf ds s else sscanf ds s

/-- atoi converts with strtol too, to 0 where there is no number. -/
def atoi (s : List Char) : Int :=
  match scanNumber s with
  | none => 0
  | some (n, _) => toInt n

/-! ## Reading back what was printed -/

theorem takeWhile_append_of {p : Char → Bool} {s rest : List Char} (hs : ∀ c ∈ s, p c = true)
    (hrest : ∀ c ∈ rest.head?, p c = false) :
    (s ++ rest).takeWhile p = s ∧ (s ++ rest).dropWhile p = rest := by
  have hstop : rest.takeWhile p = [] ∧ rest.dropWhile p = rest := by
    cases rest with
    | nil => exact ⟨rfl, rfl⟩
    | cons c rest =>
      have hc := hrest c rfl
      simp [hc]
  rw [List.takeWhile_append_of_pos hs, List.dropWhile_append_of_pos hs, hstop.1, hstop.2]
  exact ⟨List.append_nil s, rfl⟩

theorem isDigit_toDigits {n : Nat} {c : Char} (h : c ∈ Nat.toDigits 10 n) : c.isDigit = true :=
  Nat.isDigit_of_mem_toDigits (by decide) (by decide) h

theorem isSpace_of_isDigit {c : Char} (h : c.isDigit = true) : isSpace c = false := by
  cases hspace : isSpace c with
  | false => rfl
  | true =>
    simp only [isSpace, Bool.or_eq_true, decide_eq_true_eq] at hspace
    rcases hspace with ((((rfl | rfl) | rfl) | rfl) | rfl) | rfl <;> cases h

theorem decimal_chars {n : Int} {c : Char} (h : c ∈ decimal n) : c = '-' ∨ c.isDigit = true := by
  rw [decimal] at h
  split at h
  · cases h with
    | head => exact .inl rfl
    | tail _ hdigit => exact .inr (isDigit_toDigits hdigit)
  · exact .inr (isDigit_toDigits h)

theorem skipSpace_decimal (n : Int) (rest : List Char) :
    skipSpace (decimal n ++ rest) = decimal n ++ rest := by
  have hhead : ∀ c ∈ decimal n, isSpace c = false := by
    intro c hc
    cases decimal_chars hc with
    | inl hminus => exact hminus ▸ rfl
    | inr hdigit => exact isSpace_of_isDigit hdigit
  have hne : decimal n ≠ [] := by
    rw [decimal]
    split <;> simp
  cases hdec : decimal n with
  | nil => exact absurd hdec hne
  | cons c s =>
    rw [List.cons_append, skipSpace, List.dropWhile_cons_of_neg]
    rw [hhead c (hdec ▸ List.mem_cons_self)]
    exact Bool.false_ne_true

theorem scanSign_unsigned {c : Char} (hminus : c ≠ '-') (hplus : c ≠ '+') (s : List Char) :
    scanSign (c :: s) = (false, c :: s) := by
  unfold scanSign
  split
  · rename_i heq
    exact absurd (List.cons.inj heq).1 hminus
  · rename_i heq
    exact absurd (List.cons.inj heq).1 hplus
  · rfl

theorem scanSign_decimal (n : Int) (rest : List Char) :
    scanSign (decimal n ++ rest) = (decide (n < 0), Nat.toDigits 10 n.natAbs ++ rest) := by
  rw [decimal]
  split
  · rename_i hneg
    rw [decide_eq_true hneg]
    rfl
  · rename_i hpos
    rw [decide_eq_false hpos]
    cases hdigits : Nat.toDigits 10 n.natAbs with
    | nil => exact absurd hdigits Nat.toDigits_ne_nil
    | cons c s =>
      have hc : c.isDigit = true := isDigit_toDigits (hdigits ▸ List.mem_cons_self)
      refine scanSign_unsigned ?_ ?_ _
      · rintro rfl
        cases hc
      · rintro rfl
        cases hc

/-- `%d` of scanf stops right behind a number that `%d` of printf wrote, when no
digit follows. -/
theorem scanNumber_decimal (n : Int) {rest : List Char}
    (hrest : ∀ c ∈ rest.head?, c.isDigit = false) :
    scanNumber (decimal n ++ rest) = some (n, rest) := by
  obtain ⟨htake, hdrop⟩ :=
    takeWhile_append_of (s := Nat.toDigits 10 n.natAbs) (fun _ hc => isDigit_toDigits hc) hrest
  rw [scanNumber, skipSpace_decimal, scanSign_decimal]
  simp only [htake, hdrop, Nat.toDigits_ne_nil, if_false, Nat.ofDigitChars_ten_toDigits,
    decide_eq_true_eq]
  split
  · rename_i hneg
    rw [Int.ofNat_natAbs_of_nonpos (Int.le_of_lt hneg), Int.neg_neg]
  · rename_i hpos
    rw [Int.natAbs_of_nonneg (Int.not_lt.mp hpos)]

theorem toInt_of_range {n : Int} (hmin : intMin ≤ n) (hmax : n ≤ intMax) : toInt n = n := by
  rw [intMin] at hmin
  rw [intMax] at hmax
  rw [toInt, Int.min_eq_left (by omega), Int.max_eq_right (by omega)]
  exact Int.bmod_eq_of_le (by omega) (by omega)

theorem toInt_le (n : Int) : toInt n ≤ intMax := by
  have hlt : toInt n < (4294967296 + 1) / 2 := Int.bmod_lt (by decide)
  rw [intMax]
  omega

theorem sscanf_le {ds : List Directive} {s : List Char} {n : Int} (h : n ∈ sscanf ds s) :
    n ≤ intMax := by
  induction ds generalizing s with
  | nil => cases h
  | cons d ds ih =>
    cases d with
    | text c =>
      cases s with
      | nil => cases h
      | cons a s =>
        rw [sscanf] at h
        split at h
        · exact ih h
        · cases h
    | blank => exact ih h
    | number assigned =>
      rw [sscanf] at h
      cases hscan : scanNumber s with
      | none =>
        rw [hscan] at h
        cases h
      | some p =>
        rw [hscan] at h
        dsimp only at h
        split at h
        · cases h with
          | head => exact toInt_le p.1
          | tail _ hmem => exact ih hmem
        · exact ih h

theorem length_decimal {n : Int} (hmin : intMin ≤ n) (hmax : n ≤ intMax) :
    (decimal n).length ≤ 11 := by
  rw [intMin] at hmin
  rw [intMax] at hmax
  have hdigits : (Nat.toDigits 10 n.natAbs).length ≤ 10 :=
    (Nat.length_toDigits_le_iff (by decide) (by decide)).mpr (by omega)
  rw [decimal]
  split
  · rw [List.length_cons]
    omega
  · omega

theorem sscanf_texts (word : List Char) (ds : List Directive) (s : List Char) :
    sscanf (word.map Directive.text ++ ds) (word ++ s) = sscanf ds s := by
  induction word with
  | nil => rfl
  | cons c word ih => simp only [List.map_cons, List.cons_append, sscanf, if_true, ih]

theorem sscanf_number {assigned : Bool} (ds : List Directive) {n : Int} {s rest : List Char}
    (h : scanNumber s = some (n, rest)) :
    sscanf (.number assigned :: ds) s =
      if assigned then toInt n :: sscanf ds rest else sscanf ds rest := by
  rw [sscanf, h]

end ConnectionOrder.Scan
