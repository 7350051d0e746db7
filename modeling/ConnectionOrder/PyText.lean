import ConnectionOrder.Lines
import ConnectionOrder.Scan
import Mathlib.Data.List.DropRight
import Mathlib.Data.List.Infix

/-!
# Text as the Python scripts take it apart

The methods of str that the scripts use, and what they do to lines of the form
`label: value`. lower is that of ASCII text.
-/

namespace ConnectionOrder.PyText

abbrev Text := List Char

/-- str.isspace of one character. -/
def isSpace (c : Char) : Bool :=
  (9 ≤ c.toNat && c.toNat ≤ 13) || (28 ≤ c.toNat && c.toNat ≤ 32) ||
    (0x2000 ≤ c.toNat && c.toNat ≤ 0x200a) ||
    [0x85, 0xa0, 0x1680, 0x2028, 0x2029, 0x202f, 0x205f, 0x3000].contains c.toNat

def strip (s : Text) : Text := (s.dropWhile isSpace).rdropWhile isSpace

def lower (s : Text) : Text := s.map Char.toLower

def startsWith (word s : Text) : Bool := word.isPrefixOf s

/-- s.split()[0], which fails on blank text. -/
def firstWord (s : Text) : Option Text :=
  let word := (s.dropWhile isSpace).takeWhile fun c => !isSpace c
  if word = [] then none else some word

/-- What stands before and after the first `sep`. -/
def cutText (sep : Text) : Text → Option (Text × Text)
  | [] => none
  | c :: s =>
    if startsWith sep (c :: s) then some ([], (c :: s).drop sep.length)
    else (cutText sep s).map fun p => (c :: p.1, p.2)

/-- s.split(sep)[0] -/
def part0 (sep s : Text) : Text :=
  match cutText sep s with
  | none => s
  | some (before, _) => before

/-- s.split(sep)[1], which fails where there is no `sep`. -/
def part1 (sep s : Text) : Option Text := (cutText sep s).map fun p => part0 sep p.2

/-- s.replace(old, new) for a nonempty `old`, with the part of an `old` that is still to
be passed over. -/
def replaceFrom (old new : Text) : Nat → Text → Text
  | _, [] => []
  | 0, c :: s =>
    if startsWith old (c :: s) then new ++ replaceFrom old new (old.length - 1) s
    else c :: replaceFrom old new 0 s
  | skip + 1, _ :: s => replaceFrom old new skip s

def replace (old new s : Text) : Text := replaceFrom old new 0 s

/-- The line ends of a file that is opened as text. -/
def textMode : Text → Text
  | [] => []
  | '\x0d' :: '\n' :: s => '\n' :: textMode s
  | c :: s => (if c = '\x0d' then '\n' else c) :: textMode s

/-- readlines keeps the line ends, and a last line that has none. -/
def readlines (s : Text) : List Text :=
  (Lines.lines '\n' s).map (· ++ ['\n']) ++
    if Lines.remainder '\n' s = [] then [] else [Lines.remainder '\n' s]

/-! ## Questions about all characters of a text -/

section Decide

variable {p : Char → Prop} [DecidablePred p]

-- An instance for `∀ c` alone would go through all characters there are.
instance decidableForallMem (s : Text) : Decidable (∀ c ∈ s, p c) := List.decidableBAll p s

instance decidableForallMemOption (o : Option Char) : Decidable (∀ c ∈ o, p c) :=
  Option.decidableForallMem o

end Decide

/-! ## Blanks around a text -/

/-- No blank at either end. -/
def Trimmed (s : Text) : Prop :=
  (∀ c ∈ s.head?, isSpace c = false) ∧ ∀ c ∈ s.getLast?, isSpace c = false

instance (s : Text) : Decidable (Trimmed s) := inferInstanceAs (Decidable (_ ∧ _))

theorem strip_padded {left s right : Text} (hleft : ∀ c ∈ left, isSpace c = true)
    (hright : ∀ c ∈ right, isSpace c = true) (hne : s ≠ []) (h : Trimmed s) :
    strip (left ++ (s ++ right)) = s := by
  have hhead : ∀ c ∈ (s ++ right).head?, isSpace c = false := by
    intro c hc
    rw [List.head?_append_of_ne_nil _ hne] at hc
    exact h.1 c hc
  have hlast : ∀ c ∈ s.reverse.head?, isSpace c = false := by
    intro c hc
    rw [List.head?_reverse] at hc
    exact h.2 c hc
  have hright' : ∀ c ∈ right.reverse, isSpace c = true :=
    fun c hc => hright c (List.mem_reverse.mp hc)
  rw [strip, (Scan.takeWhile_append_of hleft hhead).2, List.rdropWhile, List.reverse_append,
    (Scan.takeWhile_append_of hright' hlast).2, List.reverse_reverse]

theorem strip_trimmed {s : Text} (hne : s ≠ []) (h : Trimmed s) : strip s = s := by
  have hnone : ∀ c ∈ ([] : Text), isSpace c = true := fun _ hc => absurd hc List.not_mem_nil
  have hpadded : strip ([] ++ (s ++ [])) = s := strip_padded hnone hnone hne h
  rwa [List.nil_append, List.append_nil] at hpadded

theorem firstWord_append {left word rest : Text} (hleft : ∀ c ∈ left, isSpace c = true)
    (hne : word ≠ []) (hword : ∀ c ∈ word, isSpace c = false)
    (hrest : ∀ c ∈ rest.head?, isSpace c = true) :
    firstWord (left ++ (word ++ rest)) = some word := by
  have hhead : ∀ c ∈ (word ++ rest).head?, isSpace c = false := by
    intro c hc
    rw [List.head?_append_of_ne_nil _ hne] at hc
    exact hword c (List.mem_of_mem_head? hc)
  have hword' : ∀ c ∈ word, (!isSpace c) = true := by
    intro c hc
    rw [hword c hc]
    rfl
  have hrest' : ∀ c ∈ rest.head?, (!isSpace c) = false := by
    intro c hc
    rw [hrest c hc]
    rfl
  rw [firstWord, (Scan.takeWhile_append_of hleft hhead).2,
    (Scan.takeWhile_append_of hword' hrest').1]
  exact if_neg hne

/-! ## Looking for a separator -/

variable {sep : Text} {mark stop : Char}

/-- A word that has no `stop` but has a `mark` does not begin in front of the next `stop`
where there is no `mark`. -/
theorem not_prefix_line (hstop : stop ∉ sep) (hmark : mark ∈ sep) {x : Text} (hx : mark ∉ x)
    (s : Text) : ¬sep <+: x ++ stop :: s := by
  intro hprefix
  have hline : x ++ [stop] <+: x ++ stop :: s := by
    rw [List.append_cons x stop s]
    exact List.prefix_append _ s
  cases Nat.le_total sep.length (x ++ [stop]).length with
  | inl hle =>
    have hmem : mark ∈ x ++ [stop] :=
      (List.prefix_of_prefix_length_le hprefix hline hle).mem hmark
    rcases List.mem_append.mp hmem with hfront | hlast
    · exact hx hfront
    · exact hstop (List.mem_singleton.mp hlast ▸ hmark)
  | inr hge =>
    refine hstop ((List.prefix_of_prefix_length_le hline hprefix hge).mem ?_)
    exact List.mem_append_right x (List.mem_singleton_self stop)

theorem not_startsWith {word s : Text} (h : ¬word <+: s) : startsWith word s = false :=
  Bool.eq_false_iff.mpr fun hstarts => h (List.isPrefixOf_iff_prefix.mp hstarts)

theorem startsWith_stop {word : Text} {stop : Char} (h : stop ∉ word) (x s : Text) :
    startsWith word (x ++ stop :: s) = startsWith word x := by
  induction word generalizing x with
  | nil => rfl
  | cons a word ih =>
    rw [List.mem_cons, not_or] at h
    cases x with
    | nil =>
      have hne : (a == stop) = false := beq_eq_false_iff_ne.mpr (Ne.symm h.1)
      rw [List.nil_append, startsWith, List.isPrefixOf_cons_cons, hne]
      rfl
    | cons b x =>
      have hrest : (word.isPrefixOf (x ++ stop :: s)) = word.isPrefixOf x := ih h.2 x
      rw [List.cons_append, startsWith, startsWith, List.isPrefixOf_cons_cons, hrest,
        List.isPrefixOf_cons_cons]

/-- A separator in front of the stop is found there. -/
theorem cutText_stop_some (hstop : stop ∉ sep) {x before rest : Text}
    (h : cutText sep x = some (before, rest)) (s : Text) :
    cutText sep (x ++ stop :: s) = some (before, rest ++ stop :: s) := by
  induction x generalizing before with
  | nil => cases h
  | cons c x ih =>
    rw [cutText] at h
    rw [List.cons_append, cutText, ← List.cons_append, startsWith_stop hstop]
    cases hstarts : startsWith sep (c :: x) with
    | true =>
      have hle := (List.isPrefixOf_iff_prefix.mp hstarts).length_le
      rw [hstarts, if_pos rfl] at h
      cases h
      rw [if_pos rfl, List.drop_append_of_le_length hle]
    | false =>
      rw [hstarts, if_neg Bool.false_ne_true] at h
      obtain ⟨found, hfound, heq⟩ := Option.map_eq_some_iff.mp h
      cases heq
      rw [if_neg Bool.false_ne_true, ih hfound]
      rfl

/-- One behind it is not found in front of it. -/
theorem cutText_stop_none (hne : sep ≠ []) (hstop : stop ∉ sep) {x : Text}
    (h : cutText sep x = none) (s : Text) : cutText sep (x ++ stop :: s) =
      (cutText sep s).map fun p => (x ++ stop :: p.1, p.2) := by
  induction x with
  | nil =>
    have hstarts : startsWith sep (stop :: s) = false := by
      have hnil := startsWith_stop hstop [] s
      rw [List.nil_append] at hnil
      rw [hnil]
      exact not_startsWith fun hprefix => hne (List.prefix_nil.mp hprefix)
    rw [List.nil_append, cutText, hstarts]
    rfl
  | cons c x ih =>
    rw [cutText] at h
    rw [List.cons_append, cutText, ← List.cons_append, startsWith_stop hstop]
    cases hstarts : startsWith sep (c :: x) with
    | true =>
      rw [hstarts, if_pos rfl] at h
      cases h
    | false =>
      rw [hstarts, if_neg Bool.false_ne_true, Option.map_eq_none_iff] at h
      rw [if_neg Bool.false_ne_true, ih h, Option.map_map]
      rfl

theorem cutText_eq_none (hmark : mark ∈ sep) {s : Text} (hs : mark ∉ s) :
    cutText sep s = none := by
  induction s with
  | nil => rfl
  | cons c s ih =>
    have hno : startsWith sep (c :: s) = false :=
      not_startsWith fun hstarts => hs (hstarts.mem hmark)
    rw [cutText, hno, ih fun hmem => hs (List.mem_cons_of_mem c hmem)]
    rfl

theorem cutText_line (hstop : stop ∉ sep) (hmark : mark ∈ sep) {x : Text} (hx : mark ∉ x)
    (s : Text) : cutText sep (x ++ stop :: s) =
      (cutText sep s).map fun p => (x ++ stop :: p.1, p.2) :=
  cutText_stop_none (List.ne_nil_of_mem hmark) hstop (cutText_eq_none hmark hx) s

/-- Lines without the mark of the separator are passed over. -/
theorem cutText_terminate (hstop : stop ∉ sep) (hmark : mark ∈ sep) {ls : List Text}
    (hls : ∀ line ∈ ls, mark ∉ line) (s : Text) :
    cutText sep (Lines.terminate stop ls ++ s) =
      (cutText sep s).map fun p => (Lines.terminate stop ls ++ p.1, p.2) := by
  induction ls with
  | nil => simp
  | cons line ls ih =>
    rw [Lines.terminate_cons, List.append_assoc, List.cons_append,
      cutText_line hstop hmark (hls line List.mem_cons_self),
      ih fun other hother => hls other (List.mem_cons_of_mem line hother), Option.map_map]
    simp only [List.append_assoc, List.cons_append]
    rfl

theorem cutText_self (hne : sep ≠ []) (s : Text) : cutText sep (sep ++ s) = some ([], s) := by
  cases hsep : sep with
  | nil => exact absurd hsep hne
  | cons c word =>
    have hstarts : startsWith (c :: word) (c :: word ++ s) = true :=
      List.isPrefixOf_iff_prefix.mpr (List.prefix_append _ s)
    rw [List.cons_append] at hstarts ⊢
    rw [cutText, if_pos hstarts, ← List.cons_append, List.drop_left]

theorem cutText_isSome {s : Text} (hne : sep ≠ []) (h : sep <:+: s) : (cutText sep s).isSome := by
  induction s with
  | nil => exact absurd (List.infix_nil.mp h) hne
  | cons c s ih =>
    rw [cutText]
    cases hstarts : startsWith sep (c :: s) with
    | true => rfl
    | false =>
      have hrest : sep <:+: s := by
        refine (List.infix_cons_iff.mp h).resolve_left fun hprefix => ?_
        exact Bool.eq_false_iff.mp hstarts (List.isPrefixOf_iff_prefix.mpr hprefix)
      rw [if_neg Bool.false_ne_true, Option.isSome_map]
      exact ih hrest

theorem cutText_eq_some {s before rest : Text} (h : cutText sep s = some (before, rest)) :
    s = before ++ (sep ++ rest) := by
  induction s generalizing before with
  | nil => cases h
  | cons c s ih =>
    rw [cutText] at h
    cases hstarts : startsWith sep (c :: s) with
    | true =>
      obtain ⟨tail, htail⟩ := List.isPrefixOf_iff_prefix.mp hstarts
      rw [hstarts, if_pos rfl, ← htail, List.drop_left] at h
      cases h
      exact htail.symm
    | false =>
      rw [hstarts, if_neg Bool.false_ne_true] at h
      obtain ⟨found, hfound, heq⟩ := Option.map_eq_some_iff.mp h
      cases heq
      rw [List.cons_append, ← ih hfound]

/-- A text with fewer marks than the separator does not have it. -/
theorem cutText_eq_none_of_count {sep s : Text} (mark : Char) (h : s.count mark < sep.count mark) :
    cutText sep s = none := by
  cases hcut : cutText sep s with
  | none => rfl
  | some cut =>
    rw [cutText_eq_some hcut, List.count_append, List.count_append] at h
    omega

theorem cutText_char {c : Char} {x : Text} (hx : c ∉ x) (s : Text) :
    cutText [c] (x ++ c :: s) = some (x, s) := by
  induction x with
  | nil => exact cutText_self (List.cons_ne_nil c []) s
  | cons a x ih =>
    rw [List.mem_cons, not_or] at hx
    have hno : startsWith [c] (a :: (x ++ c :: s)) = false := by
      apply not_startsWith
      rw [List.cons_prefix_cons]
      exact fun hsame => hx.1 hsame.1
    rw [List.cons_append, cutText, hno, ih hx.2]
    rfl

/-! ## Taking a text apart at every separator -/

theorem cutText_shorter {sep s before rest : Text} (hne : sep ≠ [])
    (h : cutText sep s = some (before, rest)) : rest.length < s.length := by
  have hpos := List.length_pos_iff.mpr hne
  rw [cutText_eq_some h, List.length_append, List.length_append]
  omega

/-- s.split(sep), for a separator that begins with `c`. -/
def split (c : Char) (sep s : Text) : List Text :=
  match _h : cutText (c :: sep) s with
  | none => [s]
  | some (before, rest) => before :: split c sep rest
termination_by s.length
decreasing_by exact cutText_shorter (List.cons_ne_nil c sep) _h

section Split

variable {c : Char} {sep : Text}

theorem split_none {s : Text} (h : cutText (c :: sep) s = none) : split c sep s = [s] := by
  rw [split]
  split
  · rfl
  · rename_i hcut
    rw [h] at hcut
    cases hcut

theorem split_some {s before rest : Text} (h : cutText (c :: sep) s = some (before, rest)) :
    split c sep s = before :: split c sep rest := by
  rw [split]
  split
  · rename_i hcut
    rw [h] at hcut
    cases hcut
  · rename_i hcut
    rw [h] at hcut
    cases hcut
    rfl

end Split

/-! ## Words -/

/-- s.split() -/
def words (s : Text) : List Text := (s.splitOnP isSpace).filter (· ≠ [])

/-- A blank is in no word. -/
theorem words_append_space {c : Char} (h : isSpace c = true) (x s : Text) :
    words (x ++ c :: s) = words x ++ words s := by
  rw [words, List.splitOnP_append_cons x s h, List.filter_append, ← words, ← words]

theorem words_append {rest : Text} (h : ∀ c ∈ rest.head?, isSpace c = true) (x : Text) :
    words (x ++ rest) = words x ++ words rest := by
  cases rest with
  | nil =>
    have hnil : words [] = [] := rfl
    rw [List.append_nil, hnil, List.append_nil]
  | cons c s =>
    have hspace := h c rfl
    have hfront := words_append_space hspace [] s
    have hnil : words [] = [] := rfl
    rw [List.nil_append, hnil, List.nil_append] at hfront
    rw [words_append_space hspace, hfront]

theorem words_ne_nil {c : Char} (h : isSpace c = false) (s : Text) : words (c :: s) ≠ [] := by
  obtain ⟨piece, pieces, hpieces⟩ := List.exists_cons_of_ne_nil (List.splitOnP_ne_nil isSpace s)
  have hmem : c :: piece ∈ words (c :: s) := by
    rw [words, List.splitOnP_cons_eq_if_modifyHead, h, if_neg Bool.false_ne_true, hpieces]
    exact List.mem_filter.mpr ⟨List.mem_cons_self, decide_eq_true (List.cons_ne_nil c piece)⟩
  exact List.ne_nil_of_mem hmem

/-- A blank and another character begin one more word, whatever follows. -/
theorem length_words_lt {c d : Char} (hc : isSpace c = true) (hd : isSpace d = false)
    (x s : Text) : (words x).length < (words (x ++ c :: d :: s)).length := by
  have hpos := List.length_pos_iff.mpr (words_ne_nil hd s)
  rw [words_append_space hc, List.length_append]
  omega

/-! ## Files -/

theorem textMode_notMem (s : Text) : '\x0d' ∉ textMode s := by
  induction s using textMode.induct with
  | case1 => exact List.not_mem_nil
  | case2 s ih =>
    rw [textMode, List.mem_cons, not_or]
    exact ⟨by decide, ih⟩
  | case3 c s hother ih =>
    rw [textMode.eq_3 _ _ hother, List.mem_cons, not_or]
    refine ⟨?_, ih⟩
    split
    · decide
    · exact Ne.symm ‹_›

theorem textMode_append {x : Text} (h : '\x0d' ∉ x) (s : Text) :
    textMode (x ++ s) = x ++ textMode s := by
  induction x with
  | nil => rfl
  | cons c x ih =>
    rw [List.mem_cons, not_or] at h
    rw [List.cons_append, textMode.eq_3, if_neg (Ne.symm h.1), ih h.2]
    · rfl
    · rintro _ rfl _
      exact h.1 rfl

theorem textMode_eq {s : Text} (h : '\x0d' ∉ s) : textMode s = s := by
  have happend := textMode_append h []
  rwa [List.append_nil, textMode, List.append_nil] at happend

/-- A line that is told apart further has no words that it did not have. -/
theorem textMode_line (line s : Text) : ∃ line', textMode (line ++ '\n' :: s) =
    line' ++ '\n' :: textMode s ∧ ∀ word, '\n' ∉ word →
      (word <+: line' → word <+: line) ∧ (word <:+: line' → word <:+: line) := by
  have hline : ∀ s, textMode ('\n' :: s) = '\n' :: textMode s :=
    fun s => textMode_append (x := ['\n']) (by decide) s
  have hfront : ∀ {word rest : Text}, '\n' ∉ word → word <+: '\n' :: rest → word = [] := by
    intro word rest hword hprefix
    cases word with
    | nil => rfl
    | cons c word =>
      exact absurd (List.cons_prefix_cons.mp hprefix).1.symm (List.ne_of_not_mem_cons hword)
  induction line using textMode.induct with
  | case1 => exact ⟨[], hline s, fun word _ => ⟨id, id⟩⟩
  | case2 t ih =>
    obtain ⟨line', hmode, hwords⟩ := ih
    refine ⟨'\n' :: line', ?_, fun word hword => ⟨fun hprefix => ?_, fun hinside => ?_⟩⟩
    · rw [List.cons_append, List.cons_append, textMode, hmode]
      rfl
    · rw [hfront hword hprefix]
      exact List.nil_prefix
    · rcases List.infix_cons_iff.mp hinside with hprefix | hinside
      · rw [hfront hword hprefix]
        exact List.nil_infix
      · exact ((hwords word hword).2 hinside).trans
          ((List.suffix_cons _ _).trans (List.suffix_cons _ _)).isInfix
  | case3 c t hother ih =>
    obtain ⟨line', hmode, hwords⟩ := ih
    rcases Decidable.em (c = '\x0d' ∧ t = []) with ⟨rfl, rfl⟩ | hlast
    · refine ⟨[], ?_, fun word _ => ⟨fun hprefix => ?_, fun hinside => ?_⟩⟩
      · change textMode ('\x0d' :: '\n' :: s) = _
        rw [textMode]
        rfl
      · rw [List.prefix_nil.mp hprefix]
        exact List.nil_prefix
      · rw [List.infix_nil.mp hinside]
        exact List.nil_infix
    · have hnext : ∀ rest, c = '\x0d' → t ++ '\n' :: s = '\n' :: rest → False := by
        intro rest hc heq
        cases t with
        | nil => exact hlast ⟨hc, rfl⟩
        | cons d t =>
          cases heq
          exact hother t hc rfl
      have hprefixes : ∀ word, '\n' ∉ word →
          word <+: (if c = '\x0d' then '\n' else c) :: line' → word <+: c :: t := by
        intro word hword hprefix
        split at hprefix
        · rw [hfront hword hprefix]
          exact List.nil_prefix
        · cases word with
          | nil => exact List.nil_prefix
          | cons d word =>
            obtain ⟨hd, hrest⟩ := List.cons_prefix_cons.mp hprefix
            have hplain : '\n' ∉ word := fun hmem => hword (List.mem_cons_of_mem d hmem)
            exact List.cons_prefix_cons.mpr ⟨hd, (hwords word hplain).1 hrest⟩
      refine ⟨(if c = '\x0d' then '\n' else c) :: line', ?_, fun word hword =>
        ⟨hprefixes word hword, fun hinside => ?_⟩⟩
      · rw [List.cons_append, textMode.eq_3 _ _ hnext, hmode]
        rfl
      · rcases List.infix_cons_iff.mp hinside with hprefix | hinside
        · exact (hprefixes word hword hprefix).isInfix
        · exact ((hwords word hword).2 hinside).trans (List.suffix_cons _ _).isInfix

/-- A word without a line end of another kind stays in the text. -/
theorem textMode_inside {word s : Text} (hword : '\x0d' ∉ word) (h : word <:+: s) :
    word <:+: textMode s := by
  have hfront : ∀ {s : Text}, word <+: s → word <:+: textMode s := by
    rintro _ ⟨rest, rfl⟩
    rw [textMode_append hword]
    exact (List.prefix_append word _).isInfix
  induction s using textMode.induct with
  | case1 => exact h
  | case2 s ih =>
    rcases List.infix_cons_iff.mp h with hprefix | htail
    · exact hfront hprefix
    · rcases List.infix_cons_iff.mp htail with hprefix | htail
      · have hline : textMode ('\n' :: s) = '\n' :: textMode s :=
          textMode_append (x := ['\n']) (by decide) s
        rw [textMode, ← hline]
        exact hfront hprefix
      · exact (ih htail).trans (List.suffix_cons _ _).isInfix
  | case3 c s hother ih =>
    rcases List.infix_cons_iff.mp h with hprefix | htail
    · exact hfront hprefix
    · rw [textMode.eq_3 _ _ hother]
      exact (ih htail).trans (List.suffix_cons _ _).isInfix

theorem readlines_terminate {ls : List Text} (h : ∀ line ∈ ls, '\n' ∉ line) :
    readlines (Lines.terminate '\n' ls) = ls.map (· ++ ['\n']) := by
  have hlines : Lines.lines '\n' (Lines.terminate '\n' ls) = ls := by
    have hwhole := Lines.lines_terminate h []
    rwa [List.append_nil, Lines.lines_nil, List.append_nil] at hwhole
  have hrest : Lines.remainder '\n' (Lines.terminate '\n' ls) = [] := by
    have hparts : Lines.terminate '\n' (Lines.lines '\n' (Lines.terminate '\n' ls)) ++
        Lines.remainder '\n' (Lines.terminate '\n' ls) = Lines.terminate '\n' ls :=
      Lines.terminate_lines _
    rw [hlines] at hparts
    exact List.append_right_eq_self.mp hparts
  rw [readlines, hlines, hrest, if_pos rfl, List.append_nil]

end ConnectionOrder.PyText
