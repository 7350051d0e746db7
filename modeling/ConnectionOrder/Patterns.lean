import ConnectionOrder.FixedPoint

/-!
# Searching a text for one of several labelled numbers

The regular expressions `label = (number) unit`, and re.search for them. A match stays
between two characters that no part of the expression has, so a text is searched line by
line; and a line with one equals sign is matched by its own label only.
-/

namespace ConnectionOrder.Patterns

open PyText FixedPoint

/-- `\d+`, `[\d.]+` and `\d+\.\d+`, on ASCII text: `\d` has no other digits here. -/
inductive Number where
  | digits
  | numeral
  | fraction
deriving DecidableEq

/-- As many characters as there are of a class, at least one, and what follows them. -/
def takeClass (isMember : Char → Bool) (s : Text) : Option (Text × Text) :=
  if s.takeWhile isMember = [] then none
  else some (s.takeWhile isMember, s.dropWhile isMember)

/-- `\.\d+` -/
def takePlaces : Text → Option (Text × Text)
  | '.' :: s => (takeClass Char.isDigit s).map fun found => ('.' :: found.1, found.2)
  | _ => none

/-- The longest match. What follows a shorter one is of the class, so no unit is there. -/
def Number.take : Number → Text → Option (Text × Text)
  | .digits, s => takeClass Char.isDigit s
  | .numeral, s => takeClass isNumeral s
  | .fraction, s => (takeClass Char.isDigit s).bind fun whole =>
      (takePlaces whole.2).map fun places => (whole.1 ++ places.1, places.2)

structure Pattern where
  label : Text
  number : Number
  unit : Text
deriving DecidableEq

def equals : Text := [' ', '=', ' ']

namespace Pattern

variable (p : Pattern)

/-- The group, where what stands behind `label = ` matches. -/
def value (s : Text) : Option Text :=
  (p.number.take s).bind fun found => if startsWith p.unit found.2 then some found.1 else none

def matchHere (s : Text) : Option Text :=
  if startsWith (p.label ++ equals) s then p.value (s.drop (p.label ++ equals).length) else none

/-- re.search: the group of the first match. -/
def search : Text → Option Text
  | [] => none
  | c :: s => (p.matchHere (c :: s)).or (search s)

end Pattern

/-! ## Up to a character that is in no match -/

/-- What is behind a match, with more text behind it. -/
def more (t : Text) (found : Text × Text) : Text × Text := (found.1, found.2 ++ t)

theorem takeClass_stop {isMember : Char → Bool} {stop : Char} (h : isMember stop = false)
    (x s : Text) :
    takeClass isMember (x ++ stop :: s) = (takeClass isMember x).map (more (stop :: s)) := by
  have htake : (x ++ stop :: s).takeWhile isMember = x.takeWhile isMember := by
    induction x with
    | nil => simp [h]
    | cons c x ih =>
      rw [List.cons_append, List.takeWhile_cons, List.takeWhile_cons, ih]
  have hdrop : (x ++ stop :: s).dropWhile isMember = x.dropWhile isMember ++ stop :: s := by
    clear htake
    induction x with
    | nil => simp [h]
    | cons c x ih =>
      rw [List.cons_append, List.dropWhile_cons, List.dropWhile_cons, ih]
      split <;> rfl
  rw [takeClass, takeClass, htake, hdrop]
  split <;> rfl

theorem takePlaces_stop {stop : Char} (hdigit : stop.isDigit = false) (hpoint : stop ≠ '.')
    (x s : Text) : takePlaces (x ++ stop :: s) = (takePlaces x).map (more (stop :: s)) := by
  cases x with
  | nil =>
    rw [List.nil_append, takePlaces.eq_2]
    · rfl
    · rintro _ heq
      exact hpoint (List.cons.inj heq).1
  | cons c x =>
    cases Decidable.em (c = '.') with
    | inl heq =>
      rw [heq, List.cons_append, takePlaces, takePlaces, takeClass_stop hdigit, Option.map_map,
        Option.map_map]
      rfl
    | inr hne =>
      have hother : ∀ t, takePlaces (c :: t) = none := by
        intro t
        refine takePlaces.eq_2 _ ?_
        rintro _ heq
        exact hne (List.cons.inj heq).1
      rw [List.cons_append, hother, hother]
      rfl

theorem isDigit_of_not_isNumeral {c : Char} (h : isNumeral c = false) : c.isDigit = false :=
  Bool.eq_false_iff.mpr fun hdigit => Bool.eq_false_iff.mp h (isNumeral_of_isDigit hdigit)

theorem take_stop {stop : Char} (h : isNumeral stop = false) (number : Number) (x s : Text) :
    number.take (x ++ stop :: s) = (number.take x).map (more (stop :: s)) := by
  have hdigit := isDigit_of_not_isNumeral h
  cases number with
  | digits => exact takeClass_stop hdigit x s
  | numeral => exact takeClass_stop h x s
  | fraction =>
    have hpoint : stop ≠ '.' := by
      rintro rfl
      cases h
    rw [Number.take, Number.take, takeClass_stop hdigit]
    cases takeClass Char.isDigit x with
    | none => rfl
    | some whole =>
      rw [Option.map_some, Option.bind_some, Option.bind_some, more,
        takePlaces_stop hdigit hpoint, Option.map_map, Option.map_map]
      rfl

/-- No match of the pattern has this character. -/
structure Stops (p : Pattern) (stop : Char) : Prop where
  label : stop ∉ p.label ++ equals
  number : isNumeral stop = false
  unit : stop ∉ p.unit

section Stop

variable {p : Pattern} {stop : Char} (h : Stops p stop)
include h

theorem value_stop (x s : Text) : p.value (x ++ stop :: s) = p.value x := by
  rw [Pattern.value, Pattern.value, take_stop h.number]
  cases p.number.take x with
  | none => rfl
  | some found =>
    rw [Option.map_some, Option.bind_some, Option.bind_some, more, startsWith_stop h.unit]

theorem matchHere_stop (x s : Text) : p.matchHere (x ++ stop :: s) = p.matchHere x := by
  rw [Pattern.matchHere, Pattern.matchHere, startsWith_stop h.label]
  cases hstarts : startsWith (p.label ++ equals) x with
  | false => rfl
  | true =>
    have hle := (List.isPrefixOf_iff_prefix.mp hstarts).length_le
    rw [if_pos rfl, if_pos rfl, List.drop_append_of_le_length hle, value_stop h]

/-- The first match is before the character or behind it. -/
theorem search_stop (x s : Text) : p.search (x ++ stop :: s) = (p.search x).or (p.search s) := by
  induction x with
  | nil =>
    have hnone : p.matchHere (stop :: s) = none := by
      have hhere := matchHere_stop h [] s
      rw [List.nil_append] at hhere
      rw [hhere, Pattern.matchHere]
      have hempty : startsWith (p.label ++ equals) [] = false := by
        cases hlabel : p.label with
        | nil => rfl
        | cons c label => rfl
      rw [hempty]
      rfl
    change (p.matchHere (stop :: s)).or (p.search s) = Option.or none (p.search s)
    rw [hnone]
  | cons c x ih =>
    rw [List.cons_append, Pattern.search, ← List.cons_append, matchHere_stop h, ih, Pattern.search,
      Option.or_assoc]

theorem search_terminate (ls : List Text) (s : Text) :
    p.search (Lines.terminate stop ls ++ s) = (ls.findSome? p.search).or (p.search s) := by
  induction ls with
  | nil => rfl
  | cons line ls ih =>
    rw [Lines.terminate_cons, List.append_assoc, List.cons_append, search_stop h, ih,
      List.findSome?_cons]
    cases p.search line with
    | none => rfl
    | some group => rfl

end Stop

/-- Line ends of another kind change nothing for a pattern that stays within a line. -/
theorem search_textMode {p : Pattern} (hreturn : Stops p '\x0d') (hline : Stops p '\n')
    (x s : Text) : p.search (x ++ textMode s) = p.search (x ++ s) := by
  induction s using textMode.induct generalizing x with
  | case1 => rfl
  | case2 s ih =>
    have hnext := search_stop hline [] s
    rw [List.nil_append, Pattern.search, Option.none_or] at hnext
    have hrest := ih []
    rw [List.nil_append, List.nil_append] at hrest
    rw [textMode, search_stop hline, search_stop hreturn, hnext, hrest]
  | case3 c s hother ih =>
    rw [textMode.eq_3 _ _ hother]
    split
    · rename_i hc
      have hrest := ih []
      rw [List.nil_append, List.nil_append] at hrest
      rw [hc, search_stop hline, search_stop hreturn, hrest]
    · have hrest := ih (x ++ [c])
      rwa [List.append_assoc, List.append_assoc] at hrest

/-! ## A line with one equals sign -/

theorem matchHere_eq_none {p : Pattern} {s : Text} (h : ¬p.label ++ equals <+: s) :
    p.matchHere s = none := by
  rw [Pattern.matchHere, not_startsWith h]
  rfl

/-- No match without an equals sign between blanks. -/
theorem search_eq_none {p : Pattern} {s : Text} (h : ¬equals <:+: s) : p.search s = none := by
  induction s with
  | nil => rfl
  | cons c s ih =>
    have hhere : ¬p.label ++ equals <+: c :: s := by
      intro hprefix
      exact h ((List.suffix_append p.label equals).isInfix.trans hprefix.isInfix)
    have hrest : ¬equals <:+: s := fun hinside => h (hinside.trans (List.suffix_cons c s).isInfix)
    rw [Pattern.search, matchHere_eq_none hhere, ih hrest, Option.or_none]

/-- The equals signs of a label and of a line are in the same place. -/
theorem prefix_label {label x s : Text} (hlabel : '=' ∉ label) (hx : '=' ∉ x)
    (h : label ++ equals <+: x ++ (equals ++ s)) : label = x := by
  induction label generalizing x with
  | nil =>
    cases x with
    | nil => rfl
    | cons c x =>
      obtain ⟨_, hprefix⟩ := List.cons_prefix_cons.mp h
      cases x with
      | nil => cases (List.cons_prefix_cons.mp hprefix).1
      | cons d x =>
        obtain ⟨heq, _⟩ := List.cons_prefix_cons.mp hprefix
        exact absurd (heq ▸ List.mem_cons_of_mem c List.mem_cons_self) hx
  | cons a label ih =>
    cases x with
    | nil =>
      obtain ⟨_, hprefix⟩ := List.cons_prefix_cons.mp h
      cases label with
      | nil => cases (List.cons_prefix_cons.mp hprefix).1
      | cons b label =>
        obtain ⟨heq, _⟩ := List.cons_prefix_cons.mp hprefix
        exact absurd (heq ▸ List.mem_cons_of_mem a List.mem_cons_self) hlabel
    | cons c x =>
      obtain ⟨heq, hprefix⟩ := List.cons_prefix_cons.mp h
      rw [List.mem_cons, not_or] at hlabel hx
      rw [heq, ih hlabel.2 hx.2 hprefix]

/-- An equals sign at the beginning has no blank before it. -/
theorem equals_notMem_tail {s : Text} (hs : '=' ∉ s) : ¬equals <:+: '=' :: ' ' :: s := by
  rintro ⟨front, back, heq⟩
  cases front with
  | nil => cases (List.cons.inj heq).1
  | cons c front =>
    have hmem : '=' ∈ ' ' :: s := by
      rw [← (List.cons.inj heq).2]
      simp [equals]
    rcases List.mem_cons.mp hmem with hspace | hmem
    · cases hspace
    · exact hs hmem

theorem search_equals {p : Pattern} {s : Text} (hlabel : '=' ∉ p.label) (hs : '=' ∉ s)
    (hne : p.label ≠ []) : p.search (equals ++ s) = none := by
  have hhere : ¬p.label ++ equals <+: equals ++ s :=
    fun hprefix => hne (prefix_label hlabel List.not_mem_nil hprefix)
  have hrest : p.search ('=' :: ' ' :: s) = none := search_eq_none (equals_notMem_tail hs)
  change (p.matchHere (equals ++ s)).or (p.search ('=' :: ' ' :: s)) = none
  rw [matchHere_eq_none hhere, hrest, Option.or_none]

section Line

variable {p : Pattern} {x s : Text} (hlabel : '=' ∉ p.label) (hx : '=' ∉ x) (hs : '=' ∉ s)
include hlabel hx hs

/-- Only a label that the line ends in can match. -/
theorem search_other (hne : p.label ≠ []) (h : ¬p.label <:+ x) :
    p.search (x ++ (equals ++ s)) = none := by
  induction x with
  | nil => exact search_equals hlabel hs hne
  | cons c x ih =>
    have hhere : ¬p.label ++ equals <+: c :: x ++ (equals ++ s) := by
      intro hprefix
      exact h (prefix_label hlabel hx hprefix ▸ List.suffix_refl _)
    rw [List.mem_cons, not_or] at hx
    rw [List.cons_append, Pattern.search, ← List.cons_append, matchHere_eq_none hhere,
      ih hx.2 fun hsuffix => h (hsuffix.trans (List.suffix_cons c x)), Option.or_none]

theorem search_own (hne : p.label ≠ []) (h : p.label = x) :
    p.search (x ++ (equals ++ s)) = p.value s := by
  cases x with
  | nil => exact absurd h hne
  | cons c x =>
    have hstarts : startsWith (p.label ++ equals) (c :: x ++ (equals ++ s)) = true := by
      rw [h, ← List.append_assoc]
      exact List.isPrefixOf_iff_prefix.mpr (List.prefix_append _ s)
    have hhere : p.matchHere (c :: x ++ (equals ++ s)) = p.value s := by
      rw [Pattern.matchHere, if_pos hstarts, h, ← List.append_assoc, List.drop_left]
    have hshorter : ¬p.label <:+ x := by
      intro hsuffix
      have hlength := hsuffix.length_le
      rw [h, List.length_cons] at hlength
      omega
    rw [List.mem_cons, not_or] at hx
    rw [List.cons_append, Pattern.search, ← List.cons_append, hhere,
      search_other hlabel hx.2 hs hne hshorter, Option.or_none]

end Line

/-! ## The number of a line -/

theorem takeClass_append {isMember : Char → Bool} {number s : Text} (hne : number ≠ [])
    (hnumber : ∀ c ∈ number, isMember c = true) (hs : ∀ c ∈ s.head?, isMember c = false) :
    takeClass isMember (number ++ s) = some (number, s) := by
  obtain ⟨htake, hdrop⟩ := Scan.takeWhile_append_of hnumber hs
  rw [takeClass, htake, hdrop]
  exact if_neg hne

theorem takeClass_eq_none {isMember : Char → Bool} {s : Text}
    (h : ∀ c ∈ s.head?, isMember c = false) : takeClass isMember s = none := by
  cases s with
  | nil => rfl
  | cons c s =>
    have hc : isMember c = false := h c rfl
    rw [takeClass, List.takeWhile_cons, hc]
    rfl

/-- The whole text is one number of this kind. -/
def Number.Matches : Number → Text → Prop
  | .digits, s => s ≠ [] ∧ ∀ c ∈ s, c.isDigit = true
  | .numeral, s => s ≠ [] ∧ ∀ c ∈ s, isNumeral c = true
  | .fraction, s => ∃ whole places, s = whole ++ '.' :: places ∧ whole ≠ [] ∧ places ≠ [] ∧
      (∀ c ∈ whole, c.isDigit = true) ∧ ∀ c ∈ places, c.isDigit = true

theorem Number.take_append {number : Number} {text s : Text} (h : number.Matches text)
    (hs : ∀ c ∈ s.head?, isNumeral c = false) : number.take (text ++ s) = some (text, s) := by
  have hdigit : ∀ c ∈ s.head?, c.isDigit = false :=
    fun c hc => isDigit_of_not_isNumeral (hs c hc)
  cases number with
  | digits => exact takeClass_append h.1 h.2 hdigit
  | numeral => exact takeClass_append h.1 h.2 hs
  | fraction =>
    obtain ⟨whole, places, rfl, hwhole, hplaces, hwhole', hplaces'⟩ := h
    have hpoint : ∀ c ∈ ('.' :: places ++ s).head?, c.isDigit = false := by
      rintro c ⟨⟩
      rfl
    rw [Number.take, List.append_assoc, takeClass_append hwhole hwhole' hpoint, Option.bind_some,
      List.cons_append, takePlaces, takeClass_append hplaces hplaces' hdigit]
    rfl

theorem Number.take_eq_none {number : Number} {s : Text}
    (h : ∀ c ∈ s.head?, isNumeral c = false) : number.take s = none := by
  have hdigit : ∀ c ∈ s.head?, c.isDigit = false :=
    fun c hc => isDigit_of_not_isNumeral (h c hc)
  cases number with
  | digits => exact takeClass_eq_none hdigit
  | numeral => exact takeClass_eq_none h
  | fraction => rw [Number.take, takeClass_eq_none hdigit, Option.bind_none]

theorem value_own {p : Pattern} (hunit : ∀ c ∈ p.unit.head?, isNumeral c = false) {text : Text}
    (h : p.number.Matches text) : p.value (text ++ p.unit) = some text := by
  have hstarts : startsWith p.unit p.unit = true :=
    List.isPrefixOf_iff_prefix.mpr (List.prefix_refl _)
  rw [Pattern.value, Number.take_append h hunit, Option.bind_some]
  exact if_pos hstarts

theorem value_eq_none {p : Pattern} {s : Text} (h : ∀ c ∈ s.head?, isNumeral c = false) :
    p.value s = none := by
  rw [Pattern.value, Number.take_eq_none h, Option.bind_none]

/-! ## Patterns that are told apart by their labels -/

/-- A label and a unit that stay within a line and have no equals sign. -/
structure Pattern.Ok (p : Pattern) : Prop where
  nonempty : p.label ≠ []
  label : '=' ∉ p.label
  unit : '=' ∉ p.unit
  number : ∀ c ∈ p.unit.head?, isNumeral c = false
  labelLine : '\n' ∉ p.label
  unitLine : '\n' ∉ p.unit

instance (p : Pattern) : Decidable p.Ok :=
  decidable_of_iff (p.label ≠ [] ∧ '=' ∉ p.label ∧ '=' ∉ p.unit ∧
      (∀ c ∈ p.unit.head?, isNumeral c = false) ∧ '\n' ∉ p.label ∧ '\n' ∉ p.unit)
    ⟨fun h => ⟨h.1, h.2.1, h.2.2.1, h.2.2.2.1, h.2.2.2.2.1, h.2.2.2.2.2⟩,
      fun h => ⟨h.nonempty, h.label, h.unit, h.number, h.labelLine, h.unitLine⟩⟩

theorem Pattern.Ok.stops {p : Pattern} (h : p.Ok) : Stops p '\n' := by
  refine ⟨?_, rfl, h.unitLine⟩
  rw [List.mem_append, not_or]
  exact ⟨h.labelLine, by decide⟩

/-- No label of the patterns is the end of another one's. -/
def Apart (ps : List Pattern) : Prop :=
  ∀ p ∈ ps, ∀ q ∈ ps, p.label <:+ q.label → p = q

instance (ps : List Pattern) : Decidable (Apart ps) :=
  inferInstanceAs (Decidable (∀ p ∈ ps, ∀ q ∈ ps, p.label <:+ q.label → p = q))

/-! ## Searching every piece of a text -/

/-- What the pattern finds in the pieces between the separators. -/
def found (p : Pattern) (c : Char) (sep s : Text) : List Text := (split c sep s).filterMap p.search

section Found

variable {p : Pattern} {c stop : Char} {sep : Text}

theorem found_none {s : Text} (h : cutText (c :: sep) s = none) :
    found p c sep s = (p.search s).toList := by
  rw [found, split_none h, List.filterMap_cons, List.filterMap_nil]
  cases p.search s with
  | none => rfl
  | some group => rfl

theorem found_some {s before rest : Text} (h : cutText (c :: sep) s = some (before, rest)) :
    found p c sep s = (p.search before).toList ++ found p c sep rest := by
  rw [found, split_some h, List.filterMap_cons, ← found]
  cases p.search before with
  | none => rfl
  | some group => rfl

section Stop

variable (h : Stops p stop) (hstop : stop ∉ c :: sep)
include h hstop

/-- A separator on a line of its own ends what stands before it. -/
theorem found_block (x s : Text) : found p c sep (x ++ stop :: (c :: sep ++ s)) =
    found p c sep x ++ found p c sep s := by
  induction x using split.induct c sep with
  | case1 x hcut =>
    have hwhole := cutText_stop_none (List.cons_ne_nil c sep) hstop hcut (c :: sep ++ s)
    rw [cutText_self (List.cons_ne_nil c sep), Option.map_some] at hwhole
    rw [found_some hwhole, found_none hcut, search_stop h, Pattern.search, Option.or_none]
  | case2 x before rest hcut ih =>
    rw [found_some (cutText_stop_some hstop hcut _), found_some hcut, ih, List.append_assoc]

/-- A line in which there is nothing to be found. -/
theorem found_line {line : Text} (hline : p.search line = none)
    (hcut : cutText (c :: sep) line = none) (s : Text) :
    found p c sep (line ++ stop :: s) = found p c sep s := by
  have hwhole := cutText_stop_none (List.cons_ne_nil c sep) hstop hcut s
  cases hrest : cutText (c :: sep) s with
  | none =>
    rw [hrest] at hwhole
    rw [found_none hwhole, found_none hrest, search_stop h, hline, Option.none_or]
  | some cut =>
    rw [hrest] at hwhole
    rw [found_some hwhole, found_some hrest, search_stop h, hline, Option.none_or]

/-- So too if there are separators in the line. -/
theorem found_plain {line : Text} (hline : ¬equals <:+: line) (s : Text) :
    found p c sep (line ++ stop :: s) = found p c sep s := by
  induction line using split.induct c sep with
  | case1 line hcut => exact found_line h hstop (search_eq_none hline) hcut s
  | case2 line before rest hcut ih =>
    have heq := cutText_eq_some hcut
    have hfront : before <+: line := heq ▸ List.prefix_append _ _
    have hback : rest <:+ line :=
      heq ▸ (List.suffix_append (c :: sep) rest).trans (List.suffix_append before _)
    have hbefore : p.search before = none :=
      search_eq_none fun hinside => hline (hinside.trans hfront.isInfix)
    rw [found_some (cutText_stop_some hstop hcut s), hbefore,
      ih fun hinside => hline (hinside.trans hback.isInfix)]
    rfl

end Stop

/-- The first match of all is the first match of the first piece that has one. -/
theorem head_found (h : ∀ d ∈ c :: sep, Stops p d) (s : Text) :
    (found p c sep s).head? = p.search s := by
  have hskip : ∀ word : Text, (∀ d ∈ word, Stops p d) → ∀ s, p.search (word ++ s) = p.search s := by
    intro word hword s
    induction word with
    | nil => rfl
    | cons d word ih =>
      have hstop := search_stop (hword d List.mem_cons_self) [] (word ++ s)
      rw [List.nil_append, Pattern.search, Option.none_or,
        ih fun d hd => hword d (List.mem_cons_of_mem _ hd)] at hstop
      exact hstop
  induction s using split.induct c sep with
  | case1 s hcut =>
    rw [found_none hcut]
    cases p.search s with
    | none => rfl
    | some group => rfl
  | case2 s before rest hcut ih =>
    rw [found_some hcut, List.head?_append, ih, cutText_eq_some hcut, List.cons_append,
      search_stop (h c List.mem_cons_self), hskip sep fun d hd => h d (List.mem_cons_of_mem c hd)]
    cases p.search before with
    | none => rfl
    | some group => rfl

end Found

/-! ## The numbers that are found -/

theorem takeClass_mem {isMember : Char → Bool} {s group rest : Text}
    (h : takeClass isMember s = some (group, rest)) :
    group ≠ [] ∧ ∀ c ∈ group, isMember c = true := by
  rw [takeClass, Option.ite_none_left_eq_some] at h
  obtain ⟨hne, heq⟩ := h
  cases heq
  exact ⟨hne, fun c hc => List.mem_takeWhile_imp hc⟩

theorem takePlaces_mem {s places rest : Text} (h : takePlaces s = some (places, rest)) :
    ∃ digits, places = '.' :: digits ∧ digits ≠ [] ∧ ∀ c ∈ digits, c.isDigit = true := by
  rw [takePlaces.eq_def] at h
  split at h
  · obtain ⟨found, hfound, heq⟩ := Option.map_eq_some_iff.mp h
    cases heq
    exact ⟨found.1, rfl, takeClass_mem hfound⟩
  · cases h

theorem Number.matches_take {number : Number} {s group rest : Text}
    (h : number.take s = some (group, rest)) : number.Matches group := by
  cases number with
  | digits | numeral => exact takeClass_mem h
  | fraction =>
    obtain ⟨whole, hwhole, hrest⟩ := Option.bind_eq_some_iff.mp h
    obtain ⟨places, hplaces, heq⟩ := Option.map_eq_some_iff.mp hrest
    cases heq
    obtain ⟨hne, hdigits⟩ := takeClass_mem hwhole
    obtain ⟨digits, hpoint, hne', hdigits'⟩ := takePlaces_mem hplaces
    exact ⟨whole.1, digits, congrArg (whole.1 ++ ·) hpoint, hne, hne', hdigits, hdigits'⟩

theorem matches_search {p : Pattern} {s group : Text} (h : p.search s = some group) :
    p.number.Matches group := by
  have hvalue : ∀ s, p.value s = some group → p.number.Matches group := by
    intro s hs
    obtain ⟨found, hfound, hunit⟩ := Option.bind_eq_some_iff.mp hs
    rw [Option.ite_none_right_eq_some] at hunit
    cases hunit.2
    exact Number.matches_take hfound
  induction s with
  | nil => cases h
  | cons c s ih =>
    rw [Pattern.search, Option.or_eq_some_iff] at h
    cases h with
    | inl hhere =>
      rw [Pattern.matchHere, Option.ite_none_right_eq_some] at hhere
      exact hvalue _ hhere.2
    | inr hlater => exact ih hlater.2

theorem Number.Matches.numeral {number : Number} {s : Text} (h : number.Matches s) :
    s ≠ [] ∧ ∀ c ∈ s, isNumeral c = true := by
  cases number with
  | digits => exact ⟨h.1, fun c hc => isNumeral_of_isDigit (h.2 c hc)⟩
  | numeral => exact h
  | fraction =>
    obtain ⟨whole, places, rfl, _, _, hwhole, hplaces⟩ := h
    refine ⟨by simp, fun c hc => ?_⟩
    rcases List.mem_append.mp hc with hc | hc
    · exact isNumeral_of_isDigit (hwhole c hc)
    · cases List.mem_cons.mp hc with
      | inl heq => exact heq ▸ rfl
      | inr hc => exact isNumeral_of_isDigit (hplaces c hc)

theorem takeClass_none {isMember : Char → Bool} {s : Text} (h : takeClass isMember s = none) :
    ∀ c ∈ s.head?, isMember c = false := by
  cases s with
  | nil => exact fun c hc => by cases hc
  | cons a s =>
    rintro c ⟨⟩
    refine Bool.eq_false_iff.mpr fun ha => ?_
    rw [takeClass, List.takeWhile_cons_of_pos ha, if_neg (List.cons_ne_nil a _)] at h
    cases h

theorem takeClass_some {isMember : Char → Bool} {s group rest : Text}
    (h : takeClass isMember s = some (group, rest)) :
    s = group ++ rest ∧ ∀ c ∈ rest.head?, isMember c = false := by
  rw [takeClass, Option.ite_none_left_eq_some] at h
  cases h.2
  refine ⟨List.takeWhile_append_dropWhile.symm, fun c hc => ?_⟩
  have hdrop := List.head?_dropWhile_not isMember s
  rw [Option.mem_def.mp hc] at hdrop
  exact hdrop

/-! ## A fraction where a numeral is found -/

section Fraction

variable {label : Text}

theorem value_fraction {s : Text} (h : ∀ group, (⟨label, .numeral, []⟩ : Pattern).value s =
    some group → Number.fraction.Matches group) :
    (⟨label, .fraction, []⟩ : Pattern).value s = (⟨label, .numeral, []⟩ : Pattern).value s := by
  have hunit : ∀ number : Number, (⟨label, number, []⟩ : Pattern).value s =
      (number.take s).map Prod.fst := by
    intro number
    rw [Pattern.value]
    cases number.take s with
    | none => rfl
    | some found => rfl
  rw [hunit] at h
  rw [hunit, hunit]
  cases htake : Number.numeral.take s with
  | none => rw [Number.take_eq_none (takeClass_none htake)]
  | some found =>
    obtain ⟨heq, hrest⟩ := takeClass_some htake
    rw [htake] at h
    rw [heq, Number.take_append (h found.1 rfl) hrest]

/-- The first numeral is the first fraction, if it is one. -/
theorem search_fraction {s : Text} (h : ∀ group, (⟨label, .numeral, []⟩ : Pattern).search s =
    some group → Number.fraction.Matches group) :
    (⟨label, .fraction, []⟩ : Pattern).search s = (⟨label, .numeral, []⟩ : Pattern).search s := by
  have hhere : ∀ s, (∀ group, (⟨label, .numeral, []⟩ : Pattern).matchHere s = some group →
      Number.fraction.Matches group) → (⟨label, .fraction, []⟩ : Pattern).matchHere s =
        (⟨label, .numeral, []⟩ : Pattern).matchHere s := by
    intro s hs
    rw [Pattern.matchHere] at hs ⊢
    rw [Pattern.matchHere]
    split
    · rename_i hstarts
      rw [if_pos hstarts] at hs
      exact value_fraction hs
    · rfl
  induction s with
  | nil => rfl
  | cons c s ih =>
    rw [Pattern.search] at h
    rw [Pattern.search, Pattern.search]
    cases hmatch : (⟨label, .numeral, []⟩ : Pattern).matchHere (c :: s) with
    | none =>
      rw [hmatch, Option.none_or] at h
      have hfraction := hhere (c :: s) fun _ hgroup => by cases hmatch.symm.trans hgroup
      rw [hfraction, hmatch, ih h]
    | some group =>
      rw [hmatch, Option.some_or] at h
      have hfraction := hhere (c :: s) fun _ hgroup => h _ (hmatch.symm.trans hgroup)
      rw [hfraction, hmatch, Option.some_or, Option.some_or]

end Fraction

theorem float_fraction {s : Text} (h : Number.fraction.Matches s) : (float s).isSome := by
  obtain ⟨whole, places, rfl, hne, _, hwhole, hplaces⟩ := h
  have hgroups := float_groups false hne hwhole hplaces
  rw [if_neg Bool.false_ne_true, List.nil_append] at hgroups
  rw [hgroups]
  rfl

theorem float_nonneg {s : Text} (h : ∀ c ∈ s, isNumeral c = true) (hne : s ≠ []) {x : ℚ}
    (hx : float s = some x) : 0 ≤ x := by
  rw [float, strip_signed hne fun c hc => isSigned_of_isNumeral (h c hc), scanSign_numeral h] at hx
  dsimp only at hx
  rw [Option.ite_none_left_eq_some] at hx
  obtain ⟨_, hmap⟩ := hx
  obtain ⟨exponent, _, rfl⟩ := Option.map_eq_some_iff.mp hmap
  rw [if_neg Bool.false_ne_true, one_mul]
  have hten : (0 : ℚ) ≤ 10 := by decide
  exact mul_nonneg (div_nonneg (Nat.cast_nonneg _) (pow_nonneg hten _)) (zpow_nonneg hten _)

end ConnectionOrder.Patterns
