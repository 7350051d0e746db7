import ConnectionOrder.Memory
import Mathlib.Data.List.TakeWhile

/-!
# A string at the front of a memory

The string ends in front of the first NUL. Here everything behind it is NUL as well, so
that a character written at its end makes it longer by one.
-/

namespace ConnectionOrder.CStrings

open Memory

universe u

variable {α : Type u}

def text [DecidableEq α] (nul : α) (memory : List α) : List α := memory.takeWhile fun a => a ≠ nul

def pad (nul : α) (size : Nat) (s : List α) : List α := s ++ List.replicate (size - s.length) nul

variable {nul : α} {size : Nat} {s : List α}

theorem length_pad (h : s.length ≤ size) : (pad nul size s).length = size := by
  rw [pad, List.length_append, List.length_replicate]
  omega

theorem text_eq_self [DecidableEq α] (h : nul ∉ s) : text nul s = s := by
  apply List.takeWhile_eq_self_iff.mpr
  intro a ha
  exact decide_eq_true fun heq => h (heq ▸ ha)

theorem text_append_replicate [DecidableEq α] (s : List α) (n : Nat) :
    text nul (s ++ List.replicate n nul) = text nul s := by
  induction s with
  | nil =>
    cases n with
    | zero => rfl
    | succ n => exact List.takeWhile_cons_of_neg fun hne => of_decide_eq_true hne rfl
  | cons a s ih =>
    rw [text, text, List.cons_append, List.takeWhile_cons, List.takeWhile_cons]
    split
    · exact congrArg _ ih
    · rfl

/-- The NULs behind a string are not part of it. -/
theorem text_pad [DecidableEq α] (size : Nat) (s : List α) :
    text nul (pad nul size s) = text nul s := text_append_replicate s _

theorem overwrite_replicate {n : Nat} (h : s.length ≤ n) :
    overwrite (List.replicate n nul) 0 s = pad nul n s := by
  induction s generalizing n with
  | nil =>
    cases n with
    | zero => rfl
    | succ n => rfl
  | cons a s ih =>
    cases n with
    | zero => exact absurd h (Nat.not_succ_le_zero _)
    | succ n =>
      rw [List.length_cons] at h
      rw [List.replicate_succ, overwrite, ih (Nat.le_of_succ_le_succ h), pad, pad, List.length_cons,
        Nat.add_sub_add_right, List.cons_append]

theorem readAt_pad {k : Nat} (h : k < s.length) (hsize : s.length ≤ size) :
    readAt (pad nul size s) k = some s[k] := by
  have hlt : k < (pad nul size s).length := by
    rw [length_pad hsize]
    exact Nat.lt_of_lt_of_le h hsize
  rw [readAt_natCast hlt]
  exact congrArg some (List.getElem_append_left h)

theorem pad_eq_cons (h : s.length < size) :
    pad nul size s = s ++ nul :: List.replicate (size - (s.length + 1)) nul := by
  have hroom : size - s.length = size - (s.length + 1) + 1 := by omega
  rw [pad, hroom, List.replicate_succ]

theorem readAt_end (h : s.length < size) : readAt (pad nul size s) s.length = some nul := by
  have hlt : s.length < (pad nul size s).length := by rwa [length_pad (Nat.le_of_lt h)]
  rw [readAt_natCast hlt]
  simp only [pad_eq_cons h, List.getElem_append_right (Nat.le_refl _), Nat.sub_self,
    List.getElem_cons_zero]

theorem updateAt_end (h : s.length < size) (a : α) :
    updateAt (pad nul size s) s.length (fun _ => a) = some (pad nul size (s ++ [a])) := by
  have hlt : s.length < (pad nul size s).length := by rwa [length_pad (Nat.le_of_lt h)]
  rw [updateAt_natCast hlt, pad_eq_cons h, List.set_append_right _ _ (Nat.le_refl _),
    Nat.sub_self, List.set_cons_zero, pad, List.length_append, List.length_singleton,
    List.append_assoc, List.singleton_append]

/-- Writing the NUL at the end changes nothing. -/
theorem updateAt_end_nul (h : s.length < size) :
    updateAt (pad nul size s) s.length (fun _ => nul) = some (pad nul size s) := by
  rw [updateAt_end h, pad, pad_eq_cons h, List.length_append, List.length_singleton,
    List.append_assoc, List.singleton_append]

/-- A loop that looks for the end of the string reads one of its characters or the NUL. -/
theorem readAt_cases (hnul : nul ∉ s) (hsize : s.length < size) {k : Nat} (hk : k ≤ s.length) :
    (∃ a, readAt (pad nul size s) k = some a ∧ a ≠ nul ∧ k < s.length ∧
      s.take (k + 1) = s.take k ++ [a]) ∨
    (readAt (pad nul size s) k = some nul ∧ k = s.length) := by
  rcases Nat.lt_or_eq_of_le hk with hlt | rfl
  · have hread : readAt (pad nul size s) k = some s[k] := readAt_pad hlt (Nat.le_of_lt hsize)
    refine .inl ⟨s[k], hread, ?_, hlt, List.take_succ_eq_append_getElem hlt⟩
    exact fun heq => hnul (heq ▸ List.getElem_mem hlt)
  · exact .inr ⟨readAt_end hsize, rfl⟩

/-- What a bounded memory keeps of a text that grows. -/
theorem take_append_take (n : Nat) (s more : List α) :
    s.take n ++ more.take (n - (s.take n).length) = (s ++ more).take n := by
  rw [List.take_append, List.length_take]
  rcases Nat.le_total n s.length with hle | hle
  · rw [Nat.min_eq_left hle, Nat.sub_self, Nat.sub_eq_zero_of_le hle]
  · rw [Nat.min_eq_right hle]

end ConnectionOrder.CStrings
