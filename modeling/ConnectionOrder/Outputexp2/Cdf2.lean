import ConnectionOrder.FixedPoint

/-!
# The ratios of a labelled file

parse_ratios of cdf2 knows a line by the label it begins with, and takes the label off as
a number of words. What it should find are the numbers behind a label, and nothing in a
line that is not of this form.
-/

namespace ConnectionOrder.Outputexp2.Cdf2

open PyText FixedPoint

def bytesLabel : Text := "bytes1/bytes2".toList

def socket1Label : Text := "Socket 1 before Socket 2".toList

def socket2Label : Text := "Socket 2 before Socket 1".toList

/-- The three lists of parse_ratios. -/
structure Ratios where
  bytesRatios : List ℚ
  socket1Ratios : List ℚ
  socket2Ratios : List ℚ
deriving DecidableEq

/-- float of every word of line.split()[n:]; `none` is a ValueError. -/
def numbersFrom (n : Nat) (line : Text) : Option (List ℚ) := ((words line).drop n).mapM float

def parseLine (r : Ratios) (rawLine : Text) : Option Ratios :=
  let line := strip rawLine
  if startsWith bytesLabel line then
    (numbersFrom 1 line).map fun ratios => { r with bytesRatios := r.bytesRatios ++ ratios }
  else if startsWith socket1Label line then
    (numbersFrom 4 line).map fun ratios => { r with socket1Ratios := r.socket1Ratios ++ ratios }
  else if startsWith socket2Label line then
    (numbersFrom 4 line).map fun ratios => { r with socket2Ratios := r.socket2Ratios ++ ratios }
  else some r

/-- A file that is not there is `none`. -/
def parseRatios (file : Option Text) : Option Ratios :=
  match file with
  | none => some ⟨[], [], []⟩
  | some content => (readlines (textMode content)).foldlM parseLine ⟨[], [], []⟩

/-! ## The numbers behind a label -/

/-- The line without its label, if that ends where the line or its word ends. -/
def behind (label line : Text) : Option Text :=
  let rest := line.drop label.length
  if startsWith label line = true ∧ ∀ c ∈ rest.head?, isSpace c = true then some rest else none

/-- The numbers of a line that is the label, then numbers, and nothing else. -/
def numbersBehind (label line : Text) : Option (List ℚ) :=
  (behind label line).bind fun rest => (words rest).mapM float

def ratiosOf (label : Text) (lines : List Text) : List ℚ :=
  lines.flatMap fun line => (numbersBehind label (strip line)).getD []

/-- What the three lists should be. -/
def labelled (lines : List Text) : Ratios where
  bytesRatios := ratiosOf bytesLabel lines
  socket1Ratios := ratiosOf socket1Label lines
  socket2Ratios := ratiosOf socket2Label lines

/-! ## Counting words -/

universe u v

theorem length_mapM {α : Type u} {β : Type v} {f : α → Option β} {as : List α} {bs : List β}
    (h : as.mapM f = some bs) : bs.length = as.length := by
  induction as generalizing bs with
  | nil =>
    cases h
    rfl
  | cons a as ih =>
    rw [List.mapM_cons] at h
    obtain ⟨b, _, hrest⟩ := Option.bind_eq_some_iff.mp h
    obtain ⟨bs', hbs, heq⟩ := Option.bind_eq_some_iff.mp hrest
    cases heq
    rw [List.length_cons, List.length_cons, ih hbs]

section Label

variable {label line : Text} {values : List ℚ}

theorem length_numbersFrom {n : Nat} (h : numbersFrom n line = some values) :
    values.length = (words line).length - n := by
  rw [length_mapM h, List.length_drop]

theorem words_behind {rest : Text} (h : behind label line = some rest) :
    words line = words label ++ words rest := by
  rw [behind, Option.ite_none_right_eq_some] at h
  obtain ⟨⟨hstarts, hblank⟩, hrest⟩ := h
  obtain ⟨tail, htail⟩ := List.isPrefixOf_iff_prefix.mp hstarts
  rw [← htail, List.drop_left] at hblank hrest
  cases hrest
  rw [← htail]
  exact words_append hblank label

theorem length_numbersBehind (h : numbersBehind label line = some values) :
    (words line).length = (words label).length + values.length := by
  obtain ⟨rest, hbehind, hvalues⟩ := Option.bind_eq_some_iff.mp h
  rw [words_behind hbehind, List.length_append, length_mapM hvalues]

theorem numbersBehind_eq_none (h : startsWith label line = false) :
    numbersBehind label line = none := by
  have hno : ¬(startsWith label line = true ∧
      ∀ c ∈ (line.drop label.length).head?, isSpace c = true) := by
    rw [h]
    exact fun habsurd => Bool.false_ne_true habsurd.1
  have hbehind : behind label line = none := if_neg hno
  rw [numbersBehind, hbehind, Option.bind_none]

/-- Skipping as many words as the label has leaves the numbers. -/
theorem numbersFrom_length (h : numbersBehind label line = some values) :
    numbersFrom (words label).length line = some values := by
  obtain ⟨rest, hbehind, hvalues⟩ := Option.bind_eq_some_iff.mp h
  rw [numbersFrom, words_behind hbehind, List.drop_left, hvalues]

/-- Skipping fewer leaves more numbers than there are. -/
theorem numbersFrom_excess {n : Nat} (hlabel : n < (words label).length)
    (hline : n < (words line).length) (h : numbersFrom n line = some values) :
    ((numbersBehind label line).getD []).length < values.length := by
  have hlength := length_numbersFrom h
  cases hbehind : numbersBehind label line with
  | none =>
    rw [Option.getD_none, List.length_nil]
    omega
  | some found =>
    have hfound := length_numbersBehind hbehind
    rw [Option.getD_some]
    omega

theorem startsWith_one {other : Text} (hlabel : ¬label <+: other) (hother : ¬other <+: label)
    (h : startsWith label line = true) : startsWith other line = false := by
  refine not_startsWith fun hstarts => ?_
  exact (List.prefix_or_prefix_of_prefix (List.isPrefixOf_iff_prefix.mp h) hstarts).elim
    hlabel hother

theorem length_words_label {front last : Text} {c d : Char}
    (hlabel : label = front ++ c :: d :: last) (hc : isSpace c = true) (hd : isSpace d = false)
    (h : startsWith label line = true) : (words front).length < (words line).length := by
  obtain ⟨tail, htail⟩ := List.isPrefixOf_iff_prefix.mp h
  rw [← htail, hlabel, List.append_assoc]
  exact length_words_lt hc hd front (last ++ tail)

end Label

theorem length_words_socket1 {line : Text} (h : startsWith socket1Label line = true) :
    4 < (words line).length := by
  have hlabel : socket1Label = "Socket 1 before Socket".toList ++ ' ' :: '2' :: [] := by decide
  have hfront : (words "Socket 1 before Socket".toList).length = 4 := by decide
  rw [← hfront]
  exact length_words_label hlabel (by decide) (by decide) h

theorem length_words_socket2 {line : Text} (h : startsWith socket2Label line = true) :
    4 < (words line).length := by
  have hlabel : socket2Label = "Socket 2 before Socket".toList ++ ' ' :: '1' :: [] := by decide
  have hfront : (words "Socket 2 before Socket".toList).length = 4 := by decide
  rw [← hfront]
  exact length_words_label hlabel (by decide) (by decide) h

/-! ## One line -/

/-- No label of the sockets, and behind the other label numbers or not one word. -/
structure Readable (line : Text) : Prop where
  socket1 : startsWith socket1Label line = false
  socket2 : startsWith socket2Label line = false
  bytes : startsWith bytesLabel line = true →
    (numbersBehind bytesLabel line).isSome = true ∨ (words line).length ≤ 1

namespace Ratios

def append (a b : Ratios) : Ratios where
  bytesRatios := a.bytesRatios ++ b.bytesRatios
  socket1Ratios := a.socket1Ratios ++ b.socket1Ratios
  socket2Ratios := a.socket2Ratios ++ b.socket2Ratios

def size (r : Ratios) : Nat :=
  r.bytesRatios.length + r.socket1Ratios.length + r.socket2Ratios.length

theorem append_nil (r : Ratios) : r.append ⟨[], [], []⟩ = r := by
  simp only [append, List.append_nil]

theorem append_assoc (a b c : Ratios) : (a.append b).append c = a.append (b.append c) := by
  simp only [append, List.append_assoc]

theorem size_append (a b : Ratios) : (a.append b).size = a.size + b.size := by
  simp only [append, size, List.length_append]
  omega

/-- What a line has for the three lists. -/
def ofLine (line : Text) : Ratios where
  bytesRatios := (numbersBehind bytesLabel line).getD []
  socket1Ratios := (numbersBehind socket1Label line).getD []
  socket2Ratios := (numbersBehind socket2Label line).getD []

end Ratios

theorem labelled_cons (line : Text) (lines : List Text) :
    labelled (line :: lines) = (Ratios.ofLine (strip line)).append (labelled lines) := by
  simp only [labelled, ratiosOf, List.flatMap_cons]
  rfl

theorem parseLine_readable {line : Text} (h : Readable (strip line)) (r : Ratios) :
    parseLine r line = some (r.append (Ratios.ofLine (strip line))) := by
  have hskip : (words bytesLabel).length = 1 := by decide
  rw [parseLine, Ratios.ofLine, h.socket1, h.socket2, numbersBehind_eq_none h.socket1,
    numbersBehind_eq_none h.socket2, Option.getD_none]
  cases hstarts : startsWith bytesLabel (strip line) with
  | false =>
    rw [numbersBehind_eq_none hstarts, Option.getD_none, Ratios.append_nil]
    rfl
  | true =>
    cases hbehind : numbersBehind bytesLabel (strip line) with
    | some values =>
      have hfrom := numbersFrom_length hbehind
      rw [hskip] at hfrom
      rw [if_pos rfl, hfrom, Option.getD_some]
      simp only [Ratios.append, List.append_nil]
      rfl
    | none =>
      have hnot : ¬(numbersBehind bytesLabel (strip line)).isSome = true := by
        rw [hbehind]
        exact Bool.false_ne_true
      have hfew := (h.bytes hstarts).resolve_left hnot
      have hfrom : numbersFrom 1 (strip line) = some [] := by
        rw [numbersFrom, List.drop_eq_nil_of_le hfew]
        rfl
      rw [if_pos rfl, hfrom, Option.getD_none, Ratios.append_nil]
      simp only [Option.map_some, List.append_nil]

/-- Any other line gives more than it has, or an exception. -/
theorem size_parseLine {line : Text} (h : ¬Readable (strip line)) {r r' : Ratios}
    (hparse : parseLine r line = some r') :
    r.size + (Ratios.ofLine (strip line)).size < r'.size := by
  rw [parseLine] at hparse
  cases hbytes : startsWith bytesLabel (strip line) with
  | true =>
    have hsocket1 : startsWith socket1Label (strip line) = false :=
      startsWith_one (by decide) (by decide) hbytes
    have hsocket2 : startsWith socket2Label (strip line) = false :=
      startsWith_one (by decide) (by decide) hbytes
    rw [hbytes, if_pos rfl] at hparse
    obtain ⟨values, hfrom, rfl⟩ := Option.map_eq_some_iff.mp hparse
    have hlength := length_numbersFrom hfrom
    -- The line has no number, and a second word that is taken for one.
    have hnone : numbersBehind bytesLabel (strip line) = none := by
      rw [← Option.not_isSome_iff_eq_none]
      exact fun hsome => h ⟨hsocket1, hsocket2, fun _ => .inl hsome⟩
    have hmany : 1 < (words (strip line)).length := by
      rw [← Nat.not_le]
      exact fun hfew => h ⟨hsocket1, hsocket2, fun _ => .inr hfew⟩
    rw [Ratios.ofLine, hnone, numbersBehind_eq_none hsocket1, numbersBehind_eq_none hsocket2]
    simp only [Ratios.size, List.length_append, Option.getD_none, List.length_nil]
    omega
  | false =>
    rw [hbytes, if_neg Bool.false_ne_true] at hparse
    cases hsocket1 : startsWith socket1Label (strip line) with
    | true =>
      rw [hsocket1, if_pos rfl] at hparse
      obtain ⟨values, hfrom, rfl⟩ := Option.map_eq_some_iff.mp hparse
      have hsocket2 : startsWith socket2Label (strip line) = false :=
        startsWith_one (by decide) (by decide) hsocket1
      have hskip : 4 < (words socket1Label).length := by decide
      have hexcess := numbersFrom_excess hskip (length_words_socket1 hsocket1) hfrom
      rw [Ratios.ofLine, numbersBehind_eq_none hbytes, numbersBehind_eq_none hsocket2]
      simp only [Ratios.size, List.length_append, Option.getD_none, List.length_nil]
      omega
    | false =>
      rw [hsocket1, if_neg Bool.false_ne_true] at hparse
      cases hsocket2 : startsWith socket2Label (strip line) with
      | true =>
        rw [hsocket2, if_pos rfl] at hparse
        obtain ⟨values, hfrom, rfl⟩ := Option.map_eq_some_iff.mp hparse
        have hskip : 4 < (words socket2Label).length := by decide
        have hexcess := numbersFrom_excess hskip (length_words_socket2 hsocket2) hfrom
        rw [Ratios.ofLine, numbersBehind_eq_none hbytes, numbersBehind_eq_none hsocket1]
        simp only [Ratios.size, List.length_append, Option.getD_none, List.length_nil]
        omega
      | false =>
        refine absurd ⟨hsocket1, hsocket2, fun hstarts => ?_⟩ h
        exact absurd (hbytes.symm.trans hstarts) Bool.false_ne_true

/-! ## The whole file -/

theorem foldlM_readable {lines : List Text} (h : ∀ line ∈ lines, Readable (strip line))
    (r : Ratios) : lines.foldlM parseLine r = some (r.append (labelled lines)) := by
  induction lines generalizing r with
  | nil => exact congrArg some r.append_nil.symm
  | cons line lines ih =>
    rw [List.forall_mem_cons] at h
    rw [List.foldlM_cons, parseLine_readable h.1, labelled_cons, ← Ratios.append_assoc]
    exact ih h.2 _

/-- The lists are never shorter than they should be, and longer after one bad line. -/
theorem size_foldlM {lines : List Text} {r r' : Ratios}
    (h : lines.foldlM parseLine r = some r') : r.size + (labelled lines).size ≤ r'.size ∧
      (r'.size = r.size + (labelled lines).size → ∀ line ∈ lines, Readable (strip line)) := by
  induction lines generalizing r with
  | nil =>
    cases h
    exact ⟨Nat.le_refl _, fun _ _ hmem => absurd hmem List.not_mem_nil⟩
  | cons line lines ih =>
    rw [List.foldlM_cons] at h
    obtain ⟨next, hline, hrest⟩ := Option.bind_eq_some_iff.mp h
    obtain ⟨hle, hall⟩ := ih hrest
    rw [labelled_cons, Ratios.size_append, List.forall_mem_cons]
    cases Classical.em (Readable (strip line)) with
    | inl hreadable =>
      rw [parseLine_readable hreadable] at hline
      cases hline
      rw [Ratios.size_append] at hle hall
      exact ⟨by omega, fun heq => ⟨hreadable, hall (by omega)⟩⟩
    | inr hbad =>
      have hmore := size_parseLine hbad hline
      exact ⟨by omega, fun heq => by omega⟩

/-- The lists are the numbers behind the labels exactly when no line begins with the label
of a socket, and behind the other label stand numbers or not one word. -/
theorem parseRatios_eq_labelled_iff (content : Text) :
    parseRatios (some content) = some (labelled (readlines (textMode content))) ↔
      ∀ line ∈ readlines (textMode content), Readable (strip line) := by
  rw [parseRatios]
  constructor
  · intro h
    exact (size_foldlM h).2 (Nat.zero_add _).symm
  · intro h
    have hfold := foldlM_readable h ⟨[], [], []⟩
    exact hfold

def labels : List Text := [bytesLabel, socket1Label, socket2Label]

/-- A label with numbers behind it, or a text that begins with no label. -/
def Meant (line : Text) : Prop :=
  (∃ label ∈ labels, (numbersBehind label line).isSome = true) ∨
    ∀ label ∈ labels, startsWith label line = false

theorem Meant.readable_iff {line : Text} (h : Meant line) : Readable line ↔
    startsWith socket1Label line = false ∧ startsWith socket2Label line = false := by
  refine ⟨fun hreadable => ⟨hreadable.socket1, hreadable.socket2⟩, fun hno => ?_⟩
  refine ⟨hno.1, hno.2, fun hbytes => .inl ?_⟩
  rcases h with ⟨label, hlabel, hnumbers⟩ | hnone
  · rw [labels, List.mem_cons, List.mem_cons, List.mem_singleton] at hlabel
    rcases hlabel with rfl | rfl | rfl
    · exact hnumbers
    · rw [numbersBehind_eq_none hno.1] at hnumbers
      cases hnumbers
    · rw [numbersBehind_eq_none hno.2] at hnumbers
      cases hnumbers
  · cases hbytes.symm.trans (hnone bytesLabel List.mem_cons_self)

/-- In a file of such lines every label of a socket spoils its list. -/
theorem parseRatios_meant_iff {content : Text}
    (h : ∀ line ∈ readlines (textMode content), Meant (strip line)) :
    parseRatios (some content) = some (labelled (readlines (textMode content))) ↔
      ∀ line ∈ readlines (textMode content), startsWith socket1Label (strip line) = false ∧
        startsWith socket2Label (strip line) = false := by
  refine (parseRatios_eq_labelled_iff content).trans ?_
  exact forall₂_congr fun line hline => (h line hline).readable_iff

def socketLine : Text := "Socket 1 before Socket 2 0.5\n".toList

/-- The number of the second socket is taken for a ratio. -/
theorem parseRatios_socketLine :
    parseRatios (some socketLine) = some ⟨[], [2, 1 / 2], []⟩ ∧
      labelled (readlines (textMode socketLine)) = ⟨[], [1 / 2], []⟩ ∧
      parseRatios (some socketLine) ≠ some (labelled (readlines (textMode socketLine))) := by
  have hparse : parseRatios (some socketLine) = some ⟨[], [2, 1 / 2], []⟩ := by
    with_unfolding_all decide
  have hlabelled : labelled (readlines (textMode socketLine)) = ⟨[], [1 / 2], []⟩ := by
    with_unfolding_all decide
  refine ⟨hparse, hlabelled, ?_⟩
  rw [hparse, hlabelled]
  intro heq
  have hlength : 2 = 1 := congrArg (fun r => r.socket1Ratios.length) (Option.some_inj.mp heq)
  cases hlength

end ConnectionOrder.Outputexp2.Cdf2
