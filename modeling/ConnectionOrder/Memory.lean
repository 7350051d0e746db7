import Mathlib.Data.List.Basic

/-!
# A memory of fixed size

Writing into a memory never changes its size; what a write puts beyond the end is
lost. A slice is what stands between two positions.
-/

namespace ConnectionOrder.Memory

universe u v

variable {α : Type u}

/-- The memory with `bytes` written from position `k` on. -/
def overwrite : List α → Nat → List α → List α
  | [], _, _ => []
  | memory, 0, [] => memory
  | _ :: memory, 0, b :: bytes => b :: overwrite memory 0 bytes
  | a :: memory, k + 1, bytes => a :: overwrite memory k bytes

def slice (memory : List α) (start stop : Nat) : List α := (memory.take stop).drop start

@[simp] theorem length_overwrite (memory : List α) (k : Nat) (bytes : List α) :
    (overwrite memory k bytes).length = memory.length := by
  fun_induction overwrite memory k bytes with
  | case1 | case2 => rfl
  | case3 _ _ _ _ ih | case4 _ _ _ _ ih => rw [List.length_cons, List.length_cons, ih]

theorem take_overwrite {memory bytes : List α} {k : Nat} (h : k + bytes.length ≤ memory.length) :
    (overwrite memory k bytes).take (k + bytes.length) = memory.take k ++ bytes := by
  fun_induction overwrite memory k bytes with
  | case1 k bytes =>
    rw [List.length_nil, Nat.le_zero, Nat.add_eq_zero_iff, List.length_eq_zero_iff] at h
    rw [h.2, List.take_nil, List.take_nil, List.nil_append]
  | case2 memory => rw [List.length_nil, List.take_zero, List.nil_append]
  | case3 a memory b bytes ih =>
    rw [List.length_cons, List.length_cons] at h
    have hrest := ih (by omega)
    rw [Nat.zero_add, List.take_zero, List.nil_append] at hrest ⊢
    rw [List.length_cons, List.take_succ_cons, hrest]
  | case4 a memory k bytes ih =>
    rw [List.length_cons] at h
    have hrest := ih (by omega)
    rw [Nat.succ_add, List.take_succ_cons, List.take_succ_cons, hrest, List.cons_append]

theorem length_slice {memory : List α} {start stop : Nat} (h : stop ≤ memory.length) :
    (slice memory start stop).length = stop - start := by
  rw [slice, List.length_drop, List.length_take, Nat.min_eq_left h]

theorem length_slice_le (memory : List α) (start stop : Nat) :
    (slice memory start stop).length ≤ stop - start := by
  rw [slice, List.length_drop, List.length_take]
  exact Nat.sub_le_sub_right (Nat.min_le_left _ _) start

/-- Nothing behind a position changes that is written to. -/
theorem slice_set {memory : List α} {position start : Nat} (h : position < start) (stop : Nat)
    (b : α) : slice (memory.set position b) start stop = slice memory start stop := by
  rw [slice, slice, List.take_set, List.drop_set_of_lt h]

theorem slice_drop (memory : List α) (start stop n : Nat) :
    (slice memory start stop).drop n = slice memory (start + n) stop := by
  rw [slice, slice, List.drop_drop]

theorem drop_eq_slice_append (memory : List α) {start stop : Nat} (hstart : start ≤ stop)
    (hstop : stop ≤ memory.length) :
    memory.drop start = slice memory start stop ++ memory.drop stop := by
  have htake : start ≤ (memory.take stop).length := by
    rw [List.length_take, Nat.min_eq_left hstop]
    exact hstart
  rw [slice, ← List.drop_append_of_le_length htake, List.take_append_drop]

/-! ## Accesses that are checked -/

/-- An index is an int, and may be one that the memory does not have. -/
def readAt (memory : List α) (i : Int) : Option α := if 0 ≤ i then memory[i.toNat]? else none

def updateAt (memory : List α) (i : Int) (f : α → α) : Option (List α) :=
  (readAt memory i).map fun a => memory.set i.toNat (f a)

/-- `memory[j] = memory[j + 1]`, `n` times from `j` on. -/
def shiftFrom : Nat → Nat → List α → Option (List α)
  | _, 0, memory => some memory
  | j, n + 1, memory =>
    (readAt memory (j + 1)).bind fun a => (updateAt memory j fun _ => a).bind (shiftFrom (j + 1) n)

/-- A loop over `n` elements from `j` on. -/
def foldFrom {β : Type v} (f : β → α → β) (memory : List α) : β → Nat → Nat → Option β
  | b, _, 0 => some b
  | b, j, n + 1 => (readAt memory j).bind fun a => foldFrom f memory (f b a) (j + 1) n

theorem readAt_natCast {memory : List α} {i : Nat} (h : i < memory.length) :
    readAt memory i = some memory[i] := by
  rw [readAt, if_pos (Int.natCast_nonneg i), Int.toNat_natCast, List.getElem?_eq_getElem h]

theorem updateAt_natCast {memory : List α} {i : Nat} (h : i < memory.length) (f : α → α) :
    updateAt memory i f = some (memory.set i (f memory[i])) := by
  rw [updateAt, readAt_natCast h, Int.toNat_natCast]
  rfl

theorem readAt_eq_none_iff {memory : List α} {i : Int} (h : 0 ≤ i) :
    readAt memory i = none ↔ (memory.length : Int) ≤ i := by
  rw [readAt, if_pos h, List.getElem?_eq_none_iff]
  omega

theorem updateAt_eq_none_iff {memory : List α} {i : Int} (h : 0 ≤ i) (f : α → α) :
    updateAt memory i f = none ↔ (memory.length : Int) ≤ i := by
  rw [updateAt, Option.map_eq_none_iff, readAt_eq_none_iff h]

/-- An assignment is read back where it was made and nowhere else. -/
theorem readAt_updateAt {memory memory' : List α} {i : Int} {a : α}
    (h : updateAt memory i (fun _ => a) = some memory') :
    memory'.length = memory.length ∧ readAt memory' i = some a ∧
      ∀ j, j ≠ i → readAt memory' j = readAt memory j := by
  obtain ⟨old, hread, rfl⟩ := Option.map_eq_some_iff.mp h
  have hi : 0 ≤ i := by
    by_contra hneg
    rw [readAt, if_neg hneg] at hread
    cases hread
  rw [readAt, if_pos hi] at hread
  obtain ⟨hlt, _⟩ := List.getElem?_eq_some_iff.mp hread
  refine ⟨List.length_set, ?_, ?_⟩
  · rw [readAt, if_pos hi, List.getElem?_set_self hlt]
  · intro j hne
    rw [readAt, readAt]
    split
    · rename_i hj
      exact List.getElem?_set_ne (by omega)
    · rfl

theorem take_succ_set {memory : List α} {j : Nat} (h : j < memory.length) (a : α) :
    (memory.set j a).take (j + 1) = memory.take j ++ [a] := by
  have hlength : (memory.take j).length = j := List.length_take_of_le (Nat.le_of_lt h)
  rw [List.take_set, List.take_succ_eq_append_getElem h,
    List.set_append_right _ _ (Nat.le_of_eq hlength), hlength, Nat.sub_self]
  rfl

/-- What is in front of `j` and what is behind the last element read stay in place. -/
theorem shiftFrom_eq {memory : List α} {j n : Nat} (h : j + n < memory.length) :
    shiftFrom j n memory =
      some (memory.take j ++ ((memory.drop (j + 1)).take n ++ memory.drop (j + n))) := by
  induction n generalizing j memory with
  | zero =>
    rw [shiftFrom, List.take_zero, List.nil_append, Nat.add_zero, List.take_append_drop]
  | succ n ih =>
    have hnext : j + 1 < memory.length := by omega
    have hlt : j < memory.length := Nat.lt_of_succ_lt hnext
    have hread : readAt memory ((j : Int) + 1) = some memory[j + 1] := readAt_natCast hnext
    have hwrite := updateAt_natCast hlt fun _ => memory[j + 1]
    have hrest : j + 1 + n < (memory.set j memory[j + 1]).length := by
      rw [List.length_set]
      omega
    have hback : ∀ k, j < k → (memory.set j memory[j + 1]).drop k = memory.drop k :=
      fun k hk => List.drop_set_of_lt hk
    have hturn : j + 1 + n = j + (n + 1) := by omega
    rw [shiftFrom, hread, Option.bind_some, hwrite, Option.bind_some, ih hrest, take_succ_set hlt,
      hback (j + 1 + 1) (by omega), hback (j + 1 + n) (by omega), List.append_assoc,
      List.drop_eq_getElem_cons hnext, List.take_succ_cons, hturn]
    rfl

theorem foldFrom_eq {β : Type v} (f : β → α → β) {memory : List α} {j n : Nat}
    (h : j + n ≤ memory.length) (b : β) :
    foldFrom f memory b j n = some (((memory.drop j).take n).foldl f b) := by
  induction n generalizing j b with
  | zero => rw [foldFrom, List.take_zero, List.foldl_nil]
  | succ n ih =>
    have hlt : j < memory.length := by omega
    rw [foldFrom, readAt_natCast hlt, Option.bind_some, ih (by omega),
      List.drop_eq_getElem_cons hlt, List.take_succ_cons, List.foldl_cons]

end ConnectionOrder.Memory
