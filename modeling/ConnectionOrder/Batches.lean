import Mathlib.Algebra.BigOperators.Group.List.Basic
import Mathlib.Algebra.Order.Ring.Nat
import Mathlib.Logic.Function.Basic
import Mathlib.Tactic.Common

/-!
# Summing a stream in batches of fixed size

Items of an additive monoid arrive one at a time. Each full batch is summed into
the next slot of an array of fixed capacity; once the array is full the running
sum just keeps growing. A last incomplete batch may be saved at the end.
-/

namespace ConnectionOrder

universe u

structure Batches (M : Type u) where
  slots : Nat → M
  count : Nat
  total : Nat
  rest : M

namespace Batches

variable {M : Type u} {size capacity : Nat}

/-- The items summed in slot i are number `first i + 1` to number `last i`. -/
def first (size i : Nat) : Nat := i * size

def last (size i total : Nat) : Nat := min ((i + 1) * size) total

def segment (size : Nat) (items : List M) (i : Nat) : List M := (items.drop (i * size)).take size

/-- The blocks of the filled slots are disjoint and cover the items up to here. -/
def covered (size : Nat) (b : Batches M) : Nat := min (b.count * size) b.total

theorem segment_append {items : List M} {i : Nat} (x : M) (h : (i + 1) * size ≤ items.length) :
    segment size (items ++ [x]) i = segment size items i := by
  rw [Nat.succ_mul] at h
  simp only [segment]
  rw [List.drop_append_of_le_length (by omega), List.take_append_of_le_length]
  rw [List.length_drop]
  omega

theorem length_segment (items : List M) (i : Nat) :
    (segment size items i).length = last size i items.length - first size i := by
  rw [segment, List.length_take, List.length_drop, last, first, Nat.succ_mul]
  omega

theorem segment_eq (items : List M) (i : Nat) : segment size items i =
    (items.drop (first size i)).take (last size i items.length - first size i) := by
  rw [segment, ← first, List.take_eq_take_iff, List.length_drop, last, Nat.succ_mul, ← first]
  omega

theorem div_succ_eq {n : Nat} (h : (n + 1) % size ≠ 0) : (n + 1) / size = n / size := by
  rw [Nat.succ_div, if_neg (fun hd => h (Nat.mod_eq_zero_of_dvd hd)), Nat.add_zero]

theorem existsUnique_slot (b : Batches M) (hs : 0 < size) {k : Nat} (hk : k < b.covered size) :
    ∃! i, i < b.count ∧ first size i ≤ k ∧ k < last size i b.total := by
  have hk' : k < b.count * size ∧ k < b.total := by
    rw [covered] at hk
    omega
  have hmod := Nat.div_add_mod' k size
  have hrem := Nat.mod_lt k hs
  refine ⟨k / size, ⟨(Nat.div_lt_iff_lt_mul hs).mpr hk'.1, ?_, ?_⟩, ?_⟩
  · exact Nat.div_mul_le_self k size
  · rw [last, Nat.succ_mul]
    omega
  · rintro i ⟨_, hlo, hhi⟩
    rw [last] at hhi
    have hlt : k < (i + 1) * size := hhi.trans_le (Nat.min_le_left _ _)
    exact (Nat.div_eq_of_lt_le hlo hlt).symm

theorem lt_covered_of_slot (size : Nat) (b : Batches M) {i k : Nat} (hi : i < b.count)
    (hk : k < last size i b.total) : k < b.covered size := by
  rw [last] at hk
  have hle := Nat.mul_le_mul_right size (Nat.succ_le_of_lt hi)
  rw [covered]
  rw [Nat.succ_eq_add_one] at hle
  omega

/-- Saving the incomplete batch, when `keep` allows it and there is room. -/
def save (size capacity : Nat) (keep : Bool) (b : Batches M) : Batches M :=
  if b.total % size ≠ 0 ∧ b.count < capacity ∧ keep = true then
    { b with slots := Function.update b.slots b.count b.rest, count := b.count + 1 }
  else b

variable [AddMonoid M]

def empty (slots : Nat → M) : Batches M := ⟨slots, 0, 0, 0⟩

def push (size capacity : Nat) (b : Batches M) (x : M) : Batches M :=
  if (b.total + 1) % size = 0 ∧ b.count < capacity then
    ⟨Function.update b.slots b.count (b.rest + x), b.count + 1, b.total + 1, 0⟩
  else
    ⟨b.slots, b.count, b.total + 1, b.rest + x⟩

def sum (b : Batches M) : M := ((List.range b.count).map b.slots).sum + b.rest

theorem sum_push (size capacity : Nat) (b : Batches M) (x : M) :
    (b.push size capacity x).sum = b.sum + x := by
  rw [push]
  split
  · have hold : (List.range b.count).map (Function.update b.slots b.count (b.rest + x)) =
        (List.range b.count).map b.slots := by
      apply List.map_congr_left
      intro i hi
      exact Function.update_of_ne (Nat.ne_of_lt (List.mem_range.mp hi)) _ _
    rw [sum, List.range_succ, List.map_append, hold, List.sum_append, List.map_singleton,
      List.sum_singleton]
    dsimp only
    rw [Function.update_self, add_zero, sum, add_assoc]
  · rw [sum, sum, add_assoc]

structure Sums (size capacity : Nat) (initial : Nat → M) (items : List M) (b : Batches M) :
    Prop where
  total : b.total = items.length
  count : b.count = min (items.length / size) capacity
  slot : ∀ i < b.count, b.slots i = (segment size items i).sum
  rest : b.rest = (items.drop (b.count * size)).sum
  outside : ∀ i, capacity ≤ i → b.slots i = initial i

theorem sums_empty (slots : Nat → M) : Sums size capacity slots [] (empty slots) where
  total := rfl
  count := by simp [empty]
  slot i hi := absurd hi (Nat.not_lt_zero i)
  rest := by simp [empty]
  outside _ _ := rfl

theorem Sums.count_mul_le {initial : Nat → M} {items : List M} {b : Batches M}
    (h : Sums size capacity initial items b) : b.count * size ≤ items.length := by
  rw [h.count]
  calc
    min (items.length / size) capacity * size ≤ items.length / size * size :=
      Nat.mul_le_mul_right _ (Nat.min_le_left _ _)
    _ ≤ items.length := Nat.div_mul_le_self _ _

theorem Sums.segment_push {initial : Nat → M} {items : List M} {b : Batches M}
    (h : Sums size capacity initial items b) (x : M) {i : Nat} (hi : i < b.count) :
    segment size (items ++ [x]) i = segment size items i :=
  segment_append x ((Nat.mul_le_mul_right size (Nat.succ_le_of_lt hi)).trans h.count_mul_le)

theorem Sums.rest_push {initial : Nat → M} {items : List M} {b : Batches M}
    (h : Sums size capacity initial items b) (x : M) :
    ((items ++ [x]).drop (b.count * size)).sum = b.rest + x := by
  rw [List.drop_append_of_le_length h.count_mul_le, List.sum_append, ← h.rest, List.sum_singleton]

theorem Sums.push {initial : Nat → M} {items : List M} {b : Batches M}
    (h : Sums size capacity initial items b) (x : M) :
    Sums size capacity initial (items ++ [x]) (b.push size capacity x) := by
  have hlen : (items ++ [x]).length = items.length + 1 := by simp
  rw [Batches.push]
  split
  · -- The batch is full: it gets a slot and the running sum starts again.
    rename_i hflush
    obtain ⟨hmod, hroom⟩ := hflush
    rw [h.total] at hmod
    have hdiv : b.count = items.length / size := by
      have hc := h.count
      omega
    have hfull : (items.length + 1) / size = b.count + 1 := by
      rw [Nat.succ_div, if_pos (Nat.dvd_of_mod_eq_zero hmod), hdiv]
    have hexact : (b.count + 1) * size = items.length + 1 := by
      rw [← hfull]
      exact Nat.div_mul_cancel (Nat.dvd_of_mod_eq_zero hmod)
    constructor
    · simp [h.total]
    · rw [hlen, hfull]
      change b.count + 1 = min (b.count + 1) capacity
      omega
    · intro i hi
      change i < b.count + 1 at hi
      rcases Nat.lt_succ_iff_lt_or_eq.mp hi with hlt | rfl
      · rw [h.segment_push x hlt]
        exact (Function.update_of_ne (Nat.ne_of_lt hlt) _ _).trans (h.slot i hlt)
      · change Function.update b.slots b.count (b.rest + x) b.count = _
        rw [Function.update_self, segment, List.take_of_length_le, h.rest_push x]
        rw [List.length_drop, hlen, ← hexact, Nat.succ_mul]
        omega
    · change 0 = ((items ++ [x]).drop ((b.count + 1) * size)).sum
      rw [hexact, ← hlen, List.drop_length, List.sum_nil]
    · intro i hi
      exact (Function.update_of_ne (by omega) _ _).trans (h.outside i hi)
  · -- Not full, or no slot left: the running sum goes on.
    rename_i hkeep
    rw [h.total] at hkeep
    constructor
    · simp [h.total]
    · change b.count = _
      rw [hlen, h.count]
      by_cases hmod : (items.length + 1) % size = 0
      · have hc := h.count
        have hle : items.length / size ≤ (items.length + 1) / size :=
          Nat.div_le_div_right (Nat.le_succ _)
        have hfull : ¬b.count < capacity := fun hlt => hkeep ⟨hmod, hlt⟩
        omega
      · rw [div_succ_eq hmod]
    · intro i hi
      rw [h.segment_push x hi]
      exact h.slot i hi
    · exact (h.rest_push x).symm
    · exact h.outside

/-- What each slot holds at the end, the saved incomplete batch included: the
sum of a nonempty block of consecutive items. -/
theorem Sums.slot_save {initial : Nat → M} {items : List M} {b : Batches M}
    (h : Sums size capacity initial items b) (hs : 0 < size) (keep : Bool) {i : Nat}
    (hi : i < (b.save size capacity keep).count) :
    0 < (segment size items i).length ∧
    (b.save size capacity keep).slots i = (segment size items i).sum := by
  have old : i < b.count → 0 < (segment size items i).length ∧
      b.slots i = (segment size items i).sum := by
    intro hlt
    have hfull := (Nat.mul_le_mul_right size (Nat.succ_le_of_lt hlt)).trans h.count_mul_le
    refine ⟨?_, h.slot i hlt⟩
    rw [length_segment, last, first]
    rw [Nat.succ_mul] at hfull ⊢
    omega
  rw [save] at hi ⊢
  split
  · rename_i hsave
    rw [if_pos hsave] at hi
    obtain ⟨hmod, hroom, _⟩ := hsave
    rw [h.total] at hmod
    change i < b.count + 1 at hi
    rcases Nat.lt_succ_iff_lt_or_eq.mp hi with hlt | rfl
    · exact ⟨(old hlt).1, (Function.update_of_ne (Nat.ne_of_lt hlt) _ _).trans (old hlt).2⟩
    · have hdiv : b.count = items.length / size := by
        have hc := h.count
        omega
      have hsplit : b.count * size + items.length % size = items.length := by
        rw [hdiv]
        exact Nat.div_add_mod' _ _
      have hrem := Nat.mod_lt items.length hs
      constructor
      · rw [length_segment, last, first, Nat.succ_mul]
        omega
      · change Function.update b.slots b.count b.rest b.count = _
        rw [Function.update_self, h.rest, segment, List.take_of_length_le]
        rw [List.length_drop]
        omega
  · rename_i hskip
    rw [if_neg hskip] at hi
    exact old hi

theorem Sums.covered_save {initial : Nat → M} {items : List M} {b : Batches M}
    (h : Sums size capacity initial items b) (hs : 0 < size) (keep : Bool) :
    (b.save size capacity keep).covered size =
      if items.length ≤ capacity * size ∧ (items.length % size = 0 ∨ keep = true) then items.length
      else b.count * size := by
  have hle := h.count_mul_le
  have hc := h.count
  have hsplit := Nat.div_add_mod' items.length size
  have hrem := Nat.mod_lt items.length hs
  have hcap : items.length / size < capacity ↔ items.length < capacity * size :=
    Nat.div_lt_iff_lt_mul hs
  have htotal : (b.save size capacity keep).total = items.length := by
    rw [save]
    split <;> exact h.total
  rw [covered, htotal, save, h.total]
  by_cases hmod : items.length % size = 0
  · rw [if_neg (by simp [hmod])]
    by_cases hfit : items.length ≤ capacity * size
    · rw [if_pos ⟨hfit, .inl hmod⟩]
      have hq : items.length / size ≤ capacity := by
        rw [← Nat.mul_div_cancel capacity hs]
        exact Nat.div_le_div_right hfit
      have hcount : b.count = items.length / size := by omega
      rw [hcount, Nat.min_eq_right (by omega)]
    · rw [if_neg (fun hand => hfit hand.1), Nat.min_eq_left hle]
  · by_cases hroom : b.count < capacity ∧ keep = true
    · have hcount : b.count = items.length / size := by omega
      rw [if_pos ⟨hmod, hroom.1, hroom.2⟩, if_pos ⟨by omega, .inr hroom.2⟩]
      change min ((b.count + 1) * size) items.length = items.length
      rw [Nat.succ_mul, hcount]
      omega
    · rw [if_neg (fun hand => hroom hand.2), if_neg, Nat.min_eq_left hle]
      rintro ⟨hfit, hor⟩
      have hkeep := hor.resolve_left hmod
      have hfull : capacity ≤ items.length / size := by
        have hn : ¬b.count < capacity := fun hlt => hroom ⟨hlt, hkeep⟩
        omega
      have hge : capacity * size ≤ items.length / size * size := Nat.mul_le_mul_right size hfull
      omega

end Batches

end ConnectionOrder
