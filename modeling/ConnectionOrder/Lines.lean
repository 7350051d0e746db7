import Mathlib.Data.List.Basic

/-!
# Terminated lines

A reader that looks for a terminator sees the lines in front of each one; what
follows the last terminator is not a line yet.
-/

namespace ConnectionOrder.Lines

universe u

variable {α : Type u} {sep : α}

def terminate (sep : α) (ls : List (List α)) : List α := ls.flatMap fun line => line ++ [sep]

@[simp] theorem terminate_nil : terminate sep [] = [] := rfl

theorem terminate_cons (line : List α) (ls : List (List α)) :
    terminate sep (line :: ls) = line ++ sep :: terminate sep ls := by
  rw [terminate, List.flatMap_cons, List.append_assoc]
  rfl

variable [DecidableEq α]

/-- What stands before and after the first `sep`. -/
def cut (sep : α) : List α → Option (List α × List α)
  | [] => none
  | a :: s => if a = sep then some ([], s) else (cut sep s).map fun p => (a :: p.1, p.2)

def split (sep : α) : List α → List (List α) × List α
  | [] => ([], [])
  | a :: s =>
    if a = sep then ([] :: (split sep s).1, (split sep s).2)
    else
      match split sep s with
      | ([], rest) => ([], a :: rest)
      | (line :: ls, rest) => ((a :: line) :: ls, rest)

def lines (sep : α) (s : List α) : List (List α) := (split sep s).1

def remainder (sep : α) (s : List α) : List α := (split sep s).2

@[simp] theorem lines_nil : lines sep [] = [] := rfl

theorem cut_shorter {s line rest : List α} (h : cut sep s = some (line, rest)) :
    rest.length < s.length := by
  induction s generalizing line with
  | nil => cases h
  | cons a s ih =>
    rw [cut] at h
    split at h
    · cases h
      exact Nat.lt_succ_self _
    · obtain ⟨⟨before, after⟩, hcut, hpair⟩ := Option.map_eq_some_iff.mp h
      cases hpair
      exact Nat.lt_succ_of_lt (ih hcut)

theorem lines_eq_cut (s : List α) :
    lines sep s = match cut sep s with
      | none => []
      | some (line, rest) => line :: lines sep rest := by
  induction s with
  | nil => rfl
  | cons a s ih =>
    rw [cut, lines, split]
    split
    · rfl
    · rw [lines] at ih
      cases hcut : cut sep s with
      | none =>
        rw [hcut] at ih
        cases hsplit : split sep s with
        | mk ls rest =>
          rw [hsplit] at ih
          cases ih
          rfl
      | some p =>
        rw [hcut] at ih
        cases hsplit : split sep s with
        | mk ls rest =>
          rw [hsplit] at ih
          cases ih
          rfl

/-- Nothing of a stream is lost by taking it apart. -/
theorem terminate_lines (s : List α) : terminate sep (lines sep s) ++ remainder sep s = s := by
  induction s with
  | nil => rfl
  | cons a s ih =>
    rw [lines, remainder] at ih ⊢
    rw [split]
    split
    · rename_i hsep
      rw [terminate_cons, List.nil_append, List.cons_append, ih, hsep]
    · cases hsplit : split sep s with
      | mk ls rest =>
        rw [hsplit] at ih
        cases ls with
        | nil => exact congrArg (a :: ·) ih
        | cons line ls =>
          rw [terminate_cons] at ih ⊢
          exact congrArg (a :: ·) ih

theorem notMem_of_mem_lines {s line : List α} (h : line ∈ lines sep s) : sep ∉ line := by
  rw [lines] at h
  induction s generalizing line with
  | nil => cases h
  | cons a s ih =>
    rw [split] at h
    split at h
    · cases h with
      | head => exact List.not_mem_nil
      | tail _ hmem => exact ih hmem
    · rename_i hsep
      cases hsplit : split sep s with
      | mk ls rest =>
        rw [hsplit] at h ih
        cases ls with
        | nil => cases h
        | cons first ls =>
          cases h with
          | head => simp [Ne.symm hsep, ih List.mem_cons_self]
          | tail _ hmem => exact ih (List.mem_cons_of_mem _ hmem)

theorem lines_line {line : List α} (h : sep ∉ line) (rest : List α) :
    lines sep (line ++ sep :: rest) = line :: lines sep rest := by
  have hcut : cut sep (line ++ sep :: rest) = some (line, rest) := by
    induction line with
    | nil => simp [cut]
    | cons a line ih =>
      rw [List.mem_cons, not_or] at h
      rw [List.cons_append, cut, if_neg (Ne.symm h.1), ih h.2]
      rfl
  rw [lines_eq_cut, hcut]

/-- The lines of a stream that was put together from lines are those lines. -/
theorem lines_terminate {ls : List (List α)} (h : ∀ line ∈ ls, sep ∉ line) (rest : List α) :
    lines sep (terminate sep ls ++ rest) = ls ++ lines sep rest := by
  induction ls with
  | nil => rfl
  | cons line ls ih =>
    rw [terminate_cons, List.append_assoc, List.cons_append, lines_line (h line List.mem_cons_self),
      ih fun other hother => h other (List.mem_cons_of_mem _ hother), List.cons_append]

/-- The front of the line that a cut falls into joins what comes next. -/
theorem lines_append (s t : List α) :
    lines sep (s ++ t) = lines sep s ++ lines sep (remainder sep s ++ t) := by
  have hs : terminate sep (lines sep s) ++ remainder sep s = s := terminate_lines s
  conv_lhs => rw [← hs]
  rw [List.append_assoc, lines_terminate fun _ h => notMem_of_mem_lines h]

/-! ## Where a stream is cut -/

theorem cut_eq_some {s line rest : List α} (h : cut sep s = some (line, rest)) :
    s = line ++ sep :: rest ∧ sep ∉ line := by
  induction s generalizing line with
  | nil => cases h
  | cons a s ih =>
    rw [cut] at h
    split at h
    · rename_i hsep
      cases h
      exact ⟨by rw [hsep, List.nil_append], List.not_mem_nil⟩
    · rename_i hsep
      obtain ⟨⟨before, after⟩, hcut, hpair⟩ := Option.map_eq_some_iff.mp h
      cases hpair
      obtain ⟨hs, hnot⟩ := ih hcut
      refine ⟨by rw [hs, List.cons_append], ?_⟩
      rw [List.mem_cons, not_or]
      exact ⟨Ne.symm hsep, hnot⟩

theorem cut_eq_none {s : List α} : cut sep s = none ↔ sep ∉ s := by
  induction s with
  | nil => exact iff_of_true rfl List.not_mem_nil
  | cons a s ih =>
    rw [cut, List.mem_cons, not_or]
    split
    · rename_i hsep
      exact iff_of_false nofun fun h => h.1 hsep.symm
    · rename_i hsep
      rw [Option.map_eq_none_iff, ih]
      exact (and_iff_right (Ne.symm hsep)).symm

theorem lines_of_notMem {s : List α} (h : sep ∉ s) : lines sep s = [] := by
  rw [lines_eq_cut, cut_eq_none.mpr h]

theorem remainder_of_notMem {s : List α} (h : sep ∉ s) : remainder sep s = s := by
  have hparts : terminate sep (lines sep s) ++ remainder sep s = s := terminate_lines s
  rwa [lines_of_notMem h] at hparts

theorem remainder_line {line : List α} (h : sep ∉ line) (rest : List α) :
    remainder sep (line ++ sep :: rest) = remainder sep rest := by
  have hparts : terminate sep (lines sep (line ++ sep :: rest)) ++
      remainder sep (line ++ sep :: rest) = line ++ sep :: rest := terminate_lines _
  have hrest : terminate sep (lines sep rest) ++ remainder sep rest = rest := terminate_lines rest
  rw [lines_line h, terminate_cons, List.append_assoc, List.cons_append] at hparts
  have htail := (List.cons.inj (List.append_cancel_left hparts)).2
  exact List.append_cancel_left (htail.trans hrest.symm)

theorem notMem_remainder (s : List α) : sep ∉ remainder sep s := by
  cases hcut : cut sep s with
  | none =>
    have hnot := cut_eq_none.mp hcut
    rwa [remainder_of_notMem hnot]
  | some p =>
    obtain ⟨line, rest⟩ := p
    have hshorter := cut_shorter hcut
    obtain ⟨hs, hline⟩ := cut_eq_some hcut
    rw [hs, remainder_line hline]
    exact notMem_remainder rest
termination_by s.length

theorem remainder_append (s t : List α) :
    remainder sep (s ++ t) = remainder sep (remainder sep s ++ t) := by
  have hwhole : terminate sep (lines sep (s ++ t)) ++ remainder sep (s ++ t) = s ++ t :=
    terminate_lines _
  have hs : terminate sep (lines sep s) ++ remainder sep s = s := terminate_lines s
  have hnext : terminate sep (lines sep (remainder sep s ++ t)) ++
      remainder sep (remainder sep s ++ t) = remainder sep s ++ t := terminate_lines _
  rw [lines_append, terminate, List.flatMap_append, ← terminate, ← terminate,
    List.append_assoc] at hwhole
  nth_rewrite 4 [← hs] at hwhole
  rw [List.append_assoc] at hwhole
  exact List.append_cancel_left ((List.append_cancel_left hwhole).trans hnext.symm)

/-- A line that is cut is no longer than the whole line. -/
theorem remainder_shorter {s t : List α} {n : Nat}
    (hlines : ∀ line ∈ lines sep (s ++ t), line.length < n)
    (hremainder : (remainder sep (s ++ t)).length < n) : (remainder sep s).length < n := by
  rw [lines_append] at hlines
  rw [remainder_append] at hremainder
  cases hcut : cut sep t with
  | none =>
    have hnot : sep ∉ remainder sep s ++ t := by
      rw [List.mem_append, not_or]
      exact ⟨notMem_remainder s, cut_eq_none.mp hcut⟩
    rw [remainder_of_notMem hnot, List.length_append] at hremainder
    omega
  | some p =>
    obtain ⟨line, rest⟩ := p
    obtain ⟨ht, hline⟩ := cut_eq_some hcut
    have hnot : sep ∉ remainder sep s ++ line := by
      rw [List.mem_append, not_or]
      exact ⟨notMem_remainder s, hline⟩
    rw [ht, ← List.append_assoc, lines_line hnot] at hlines
    have hwhole := hlines _ (List.mem_append_right _ List.mem_cons_self)
    rw [List.length_append] at hwhole
    omega

end ConnectionOrder.Lines
