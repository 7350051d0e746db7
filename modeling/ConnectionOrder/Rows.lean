import ConnectionOrder.FixedPoint

/-!
# Lines that pair a label with a number

`label: number unit`, and the two ways of reading them: a line by itself, and a search
of the whole text with a regular expression for one label.
-/

namespace ConnectionOrder.Rows

open PyText FixedPoint

structure Row where
  label : Text
  number : Text
  unit : Text
deriving DecidableEq

/-- The line of a row without its end. -/
def Row.line (indent : Text) (r : Row) : Text :=
  indent ++ (r.label ++ ':' :: ' ' :: (r.number ++ r.unit))

structure LabelOk (label : Text) : Prop where
  nonempty : label ≠ []
  trimmed : Trimmed label
  colon : ':' ∉ label
  newline : '\n' ∉ label

structure UnitOk (unit : Text) : Prop where
  space : ∀ c ∈ unit.head?, isSpace c = true
  last : ∀ c ∈ unit.getLast?, isSpace c = false
  colon : ':' ∉ unit
  newline : '\n' ∉ unit

structure Row.Ok (r : Row) : Prop where
  label : LabelOk r.label
  nonempty : r.number ≠ []
  number : ∀ c ∈ r.number, isSigned c = true
  unit : UnitOk r.unit

instance (label : Text) : Decidable (LabelOk label) :=
  decidable_of_iff (label ≠ [] ∧ Trimmed label ∧ ':' ∉ label ∧ '\n' ∉ label)
    ⟨fun h => ⟨h.1, h.2.1, h.2.2.1, h.2.2.2⟩, fun h => ⟨h.nonempty, h.trimmed, h.colon, h.newline⟩⟩

instance (unit : Text) : Decidable (UnitOk unit) :=
  decidable_of_iff ((∀ c ∈ unit.head?, isSpace c = true) ∧
      (∀ c ∈ unit.getLast?, isSpace c = false) ∧ ':' ∉ unit ∧ '\n' ∉ unit)
    ⟨fun h => ⟨h.1, h.2.1, h.2.2.1, h.2.2.2⟩, fun h => ⟨h.space, h.last, h.colon, h.newline⟩⟩

/-! ## One line -/

section Line

variable {r : Row} (h : r.Ok)
include h

theorem Row.Ok.isSpace_number {c : Char} (hc : c ∈ r.number) : isSpace c = false :=
  isSpace_of_isSigned (h.number c hc)

theorem Row.Ok.notMem_value {c : Char} (hsigned : isSigned c = false) (hunit : c ∉ r.unit) :
    c ∉ r.number ++ r.unit := by
  rw [List.mem_append, not_or]
  refine ⟨fun hc => ?_, hunit⟩
  rw [h.number c hc] at hsigned
  cases hsigned

theorem Row.Ok.notMem_line {c : Char} {indent : Text} (hsigned : isSigned c = false)
    (hcolon : c ≠ ':') (hspace : c ≠ ' ') (hindent : c ∉ indent) (hlabel : c ∉ r.label)
    (hunit : c ∉ r.unit) : c ∉ r.line indent := by
  have hvalue := h.notMem_value hsigned hunit
  rw [Row.line]
  simp only [List.mem_append, List.mem_cons, not_or] at hvalue ⊢
  exact ⟨hindent, hlabel, hcolon, hspace, hvalue⟩

theorem Row.Ok.value_trimmed : Trimmed (r.number ++ r.unit) := by
  constructor
  · intro c hc
    rw [List.head?_append_of_ne_nil _ h.nonempty] at hc
    exact h.isSpace_number (List.mem_of_mem_head? hc)
  · intro c hc
    cases hunit : r.unit with
    | nil =>
      rw [hunit, List.append_nil] at hc
      exact h.isSpace_number (List.mem_of_mem_getLast? hc)
    | cons a rest =>
      rw [List.getLast?_append_of_ne_nil _ (by simp [hunit])] at hc
      exact h.unit.last c hc

theorem Row.Ok.strip_line {indent : Text} (hindent : ∀ c ∈ indent, isSpace c = true) :
    strip (r.line indent ++ ['\n']) = r.line [] := by
  have hend : ∀ c ∈ ['\n'], isSpace c = true := by decide
  have htrimmed : Trimmed (r.line []) := by
    constructor
    · intro c hc
      rw [Row.line, List.nil_append, List.head?_append_of_ne_nil _ h.label.nonempty] at hc
      exact h.label.trimmed.1 c hc
    · intro c hc
      have hvalue : r.number ++ r.unit ≠ [] := by simp [h.nonempty]
      rw [Row.line, List.nil_append, List.append_cons, List.append_cons,
        List.getLast?_append_of_ne_nil _ hvalue] at hc
      exact h.value_trimmed.2 c hc
  have hne : r.line [] ≠ [] := by simp [Row.line]
  have hline : r.line indent ++ ['\n'] = indent ++ (r.line [] ++ ['\n']) := by
    rw [Row.line, Row.line, List.nil_append, List.append_assoc]
  rw [hline]
  exact strip_padded hindent hend hne htrimmed

theorem Row.Ok.cut_line : cutText [':'] (r.line []) = some (r.label, ' ' :: (r.number ++ r.unit)) :=
  cutText_char h.label.colon _

theorem Row.Ok.strip_value : strip (' ' :: (r.number ++ r.unit)) = r.number ++ r.unit := by
  have hpadded : strip ([' '] ++ ((r.number ++ r.unit) ++ [])) = r.number ++ r.unit :=
    strip_padded (by decide) (fun _ hc => absurd hc List.not_mem_nil) (by simp [h.nonempty])
      h.value_trimmed
  rwa [List.append_nil] at hpadded

theorem Row.Ok.firstWord_value : firstWord (r.number ++ r.unit) = some r.number :=
  firstWord_append (fun _ hc => absurd hc List.not_mem_nil) h.nonempty
    (fun _ hc => h.isSpace_number hc) h.unit.space

end Line

/-! ## Searching the whole text -/

/-- The match of `label:\s*([0-9\.]+)` that begins here: its group, and what follows it. -/
def matchLabel (label s : Text) : Option (Text × Text) :=
  if startsWith (label ++ [':']) s then
    let rest := (s.drop (label.length + 1)).dropWhile isSpace
    let group := rest.takeWhile isNumeral
    if group = [] then none else some (group, rest.dropWhile isNumeral)
  else none

theorem matchLabel_shorter {label s group rest : Text}
    (h : matchLabel label s = some (group, rest)) : rest.length < s.length := by
  rw [matchLabel] at h
  split at h
  · rename_i hstarts
    have hlength := (List.isPrefixOf_iff_prefix.mp hstarts).length_le
    dsimp only at h
    split at h
    · cases h
    · cases h
      have hnumeral : (((s.drop (label.length + 1)).dropWhile isSpace).dropWhile
          isNumeral).length ≤ ((s.drop (label.length + 1)).dropWhile isSpace).length :=
        (List.dropWhile_suffix _).length_le
      have hspace : ((s.drop (label.length + 1)).dropWhile isSpace).length ≤
          (s.drop (label.length + 1)).length := (List.dropWhile_suffix _).length_le
      rw [List.length_append, List.length_singleton] at hlength
      rw [List.length_drop] at hspace
      omega
  · cases h

/-- re.findall: the groups of the matches, each sought behind the one before. -/
def findall (label : Text) : Text → List Text
  | [] => []
  | c :: s =>
    match h : matchLabel label (c :: s) with
    | none => findall label s
    | some (group, rest) =>
      have := matchLabel_shorter h
      group :: findall label rest
termination_by s => s.length
decreasing_by
  · exact Nat.lt_succ_self s.length
  · assumption

/-- re.search: the group of the first match. -/
def search (label s : Text) : Option Text := (findall label s).head?

section Search

variable {label : Text}

theorem matchLabel_eq_none {s : Text} (h : ¬label ++ [':'] <+: s) : matchLabel label s = none := by
  rw [matchLabel, not_startsWith h]
  rfl

theorem findall_skip {c : Char} {s : Text} (h : ¬label ++ [':'] <+: c :: s) :
    findall label (c :: s) = findall label s := by
  rw [findall]
  split
  · rfl
  · rename_i hmatch
    rw [matchLabel_eq_none h] at hmatch
    cases hmatch

theorem findall_match {c : Char} {s group rest : Text}
    (h : matchLabel label (c :: s) = some (group, rest)) :
    findall label (c :: s) = group :: findall label rest := by
  rw [findall]
  split
  · rename_i hmatch
    rw [h] at hmatch
    cases hmatch
  · rename_i hmatch
    rw [h] at hmatch
    cases hmatch
    rfl

variable (hlabel : LabelOk label)
include hlabel

theorem newline_notMem_pattern : '\n' ∉ label ++ [':'] := by
  rw [List.mem_append, not_or]
  exact ⟨hlabel.newline, by decide⟩

/-- The rest of a line that has no colon is passed over. -/
theorem findall_plain {x : Text} (hx : ':' ∉ x) (s : Text) :
    findall label (x ++ '\n' :: s) = findall label s := by
  have hcolon : ':' ∈ label ++ [':'] := List.mem_append_right label List.mem_cons_self
  induction x with
  | nil => exact findall_skip (not_prefix_line (newline_notMem_pattern hlabel) hcolon hx s)
  | cons c x ih =>
    have hno := not_prefix_line (newline_notMem_pattern hlabel) hcolon hx s
    rw [List.cons_append] at hno ⊢
    rw [findall_skip hno]
    exact ih fun hmem => hx (List.mem_cons_of_mem c hmem)

theorem prefix_colon {x s : Text} (hx : ':' ∉ x) (h : label ++ [':'] <+: x ++ ':' :: s) :
    label = x := by
  obtain ⟨t, ht⟩ := h
  have hcut := cutText_char hx s
  rw [← ht, List.append_assoc, List.singleton_append, cutText_char hlabel.colon t] at hcut
  cases hcut
  rfl

theorem findall_other {x : Text} (hx : ':' ∉ x) (hsuffix : ¬label <:+ x) (s : Text) :
    findall label (x ++ ':' :: s) = findall label s := by
  induction x with
  | nil =>
    refine findall_skip fun hprefix => hlabel.nonempty ?_
    exact prefix_colon hlabel hx hprefix
  | cons c x ih =>
    have hno : ¬label ++ [':'] <+: c :: x ++ ':' :: s := by
      intro hprefix
      exact hsuffix (prefix_colon hlabel hx hprefix ▸ List.suffix_rfl)
    rw [List.cons_append] at hno ⊢
    rw [findall_skip hno]
    exact ih (fun hmem => hx (List.mem_cons_of_mem c hmem))
      fun hshort => hsuffix (hshort.trans (List.suffix_cons c x))

/-- Where a text ends with the label, the search comes to the label. -/
theorem findall_indent {x : Text} (hx : ':' ∉ x) (s : Text) :
    findall label (x ++ (label ++ ':' :: s)) = findall label (label ++ ':' :: s) := by
  induction x with
  | nil => rfl
  | cons c x ih =>
    rw [List.mem_cons, not_or] at hx
    have hno : ¬label ++ [':'] <+: c :: (x ++ (label ++ ':' :: s)) := by
      intro hprefix
      have hfront : ':' ∉ c :: x ++ label := by
        simp [hx.1, hx.2, hlabel.colon]
      have hline : c :: (x ++ (label ++ ':' :: s)) = c :: x ++ label ++ ':' :: s := by simp
      rw [hline] at hprefix
      have hlength := congrArg List.length (prefix_colon hlabel hfront hprefix)
      rw [List.cons_append, List.length_cons, List.length_append] at hlength
      omega
    rw [List.cons_append, findall_skip hno]
    exact ih hx.2

theorem findall_number {number rest : Text} (hne : number ≠ [])
    (hnumber : ∀ c ∈ number, isNumeral c = true) (hrest : ∀ c ∈ rest.head?, isNumeral c = false) :
    findall label (label ++ ':' :: ' ' :: (number ++ rest)) = number :: findall label rest := by
  have hmatch : matchLabel label (label ++ ':' :: ' ' :: (number ++ rest)) =
      some (number, rest) := by
    have hstarts : startsWith (label ++ [':']) (label ++ ':' :: ' ' :: (number ++ rest)) =
        true := by
      have hpattern : label ++ [':'] <+: label ++ [':'] ++ ' ' :: (number ++ rest) :=
        List.prefix_append _ _
      rw [← List.append_cons] at hpattern
      exact List.isPrefixOf_iff_prefix.mpr hpattern
    have hdrop : (label ++ ':' :: ' ' :: (number ++ rest)).drop (label.length + 1) =
        [' '] ++ (number ++ rest) := by
      simp
    have hhead : ∀ c ∈ (number ++ rest).head?, isSpace c = false := by
      intro c hc
      rw [List.head?_append_of_ne_nil _ hne] at hc
      exact isSpace_of_isNumeral (hnumber c (List.mem_of_mem_head? hc))
    have hspace : ∀ c ∈ [' '], isSpace c = true := by decide
    obtain ⟨htake, hafter⟩ := Scan.takeWhile_append_of hnumber hrest
    rw [matchLabel, if_pos hstarts]
    dsimp only
    rw [hdrop, (Scan.takeWhile_append_of hspace hhead).2, htake, hafter, if_neg hne]
  cases hhead : label with
  | nil => exact absurd hhead hlabel.nonempty
  | cons c label' =>
    rw [hhead] at hmatch
    exact findall_match hmatch

end Search

/-- A row holds the number that is sought exactly when its label is the one. -/
theorem Row.Ok.findall_line {r : Row} (h : r.Ok) (hnumber : ∀ c ∈ r.number, isNumeral c = true)
    {label : Text} (hlabel : LabelOk label) {indent : Text} (hindent : ':' ∉ indent)
    (hsuffix : label <:+ indent ++ r.label → label = r.label) (s : Text) :
    findall label (r.line indent ++ '\n' :: s) =
      (if label = r.label then [r.number] else []) ++ findall label s := by
  have hvalue := h.notMem_value rfl h.unit.colon
  split
  · rename_i heq
    subst heq
    have hrest : ∀ c ∈ (r.unit ++ '\n' :: s).head?, isNumeral c = false := by
      intro c hc
      cases hunit : r.unit with
      | nil =>
        rw [hunit] at hc
        cases hc
        rfl
      | cons a rest =>
        rw [hunit] at hc
        cases hc
        refine Bool.eq_false_iff.mpr fun hnumeral => ?_
        have hspace := h.unit.space c (by simp [hunit])
        rw [isSpace_of_isNumeral hnumeral] at hspace
        cases hspace
    have hline : r.line indent ++ '\n' :: s =
        indent ++ (r.label ++ ':' :: ' ' :: (r.number ++ (r.unit ++ '\n' :: s))) := by
      simp [Row.line]
    rw [hline, findall_indent hlabel hindent, findall_number hlabel h.nonempty hnumber hrest,
      findall_plain hlabel h.unit.colon]
    rfl
  · rename_i hne
    have hline : r.line indent ++ '\n' :: s =
        (indent ++ r.label) ++ ':' :: (' ' :: (r.number ++ r.unit) ++ '\n' :: s) := by
      simp [Row.line]
    have hfront : ':' ∉ indent ++ r.label := by
      rw [List.mem_append, not_or]
      exact ⟨hindent, h.label.colon⟩
    have hback : ':' ∉ ' ' :: (r.number ++ r.unit) := by
      rw [List.mem_cons, not_or]
      exact ⟨by decide, hvalue⟩
    rw [hline, findall_other hlabel hfront fun hmem => hne (hsuffix hmem),
      findall_plain hlabel hback]
    rfl

end ConnectionOrder.Rows
