import Mathlib.Data.List.OfFn
import Mathlib.Logic.Function.Basic

/-!
# A bounded first-in first-out queue kept in an array

Elements are appended behind the occupied part of a fixed array and taken from
its front, the rest being shifted down in place. The occupied part never
exceeds the array, and every index used is an index of the array by its type.
-/

namespace ConnectionOrder

universe u

structure ArrayQueue (α : Type u) (capacity : Nat) where
  slots : Fin capacity → α
  count : Nat
  bound : count ≤ capacity

namespace ArrayQueue

variable {α : Type u} {capacity : Nat}

def empty (slots : Fin capacity → α) : ArrayQueue α capacity := ⟨slots, 0, Nat.zero_le _⟩

/-- The occupied part of the array, front first. -/
def toList (q : ArrayQueue α capacity) : List α :=
  List.ofFn fun i : Fin q.count => q.slots ⟨i.val, Nat.lt_of_lt_of_le i.isLt q.bound⟩

def front (q : ArrayQueue α capacity) (h : 0 < q.count) : α :=
  q.slots ⟨0, Nat.lt_of_lt_of_le h q.bound⟩

def push (q : ArrayQueue α capacity) (a : α) (h : q.count < capacity) : ArrayQueue α capacity where
  slots := Function.update q.slots ⟨q.count, h⟩ a
  count := q.count + 1
  bound := h

/-- The in-place shift: for each j below n, slot j receives slot j + 1. -/
def shift (slots : Fin capacity → α) (n : Nat) (h : ∀ j < n, j + 1 < capacity) : Fin capacity → α :=
  n.fold (fun j hj a =>
    Function.update a ⟨j, Nat.lt_of_succ_lt (h j hj)⟩ (a ⟨j + 1, h j hj⟩)) slots

def pop (q : ArrayQueue α capacity) : ArrayQueue α capacity where
  slots := shift q.slots (q.count - 1) (fun j hj => by have := q.bound; omega)
  count := q.count - 1
  bound := Nat.le_trans (Nat.sub_le _ _) q.bound

theorem shift_apply (slots : Fin capacity → α) (n : Nat) (h : ∀ j < n, j + 1 < capacity)
    (k : Fin capacity) :
    shift slots n h k = if hk : k.val < n then slots ⟨k.val + 1, h k.val hk⟩ else slots k := by
  induction n generalizing k with
  | zero => simp [shift]
  | succ n ih =>
    have hstep : shift slots (n + 1) h = Function.update
        (shift slots n (fun j hj => h j (Nat.lt_succ_of_lt hj)))
        ⟨n, Nat.lt_of_succ_lt (h n (Nat.lt_succ_self n))⟩
        (shift slots n (fun j hj => h j (Nat.lt_succ_of_lt hj))
          ⟨n + 1, h n (Nat.lt_succ_self n)⟩) := by
      simp only [shift, Nat.fold_succ]
    rw [hstep, Function.update_apply]
    split
    · rename_i hkn
      subst hkn
      rw [ih]
      simp
    · rename_i hkn
      have hne : k.val ≠ n := fun he => hkn (Fin.ext he)
      rw [ih]
      by_cases hk : k.val < n
      · simp [hk, Nat.lt_succ_of_lt hk]
      · have hk' : ¬k.val < n + 1 := by omega
        simp [hk, hk']

@[simp] theorem length_toList (q : ArrayQueue α capacity) : q.toList.length = q.count :=
  List.length_ofFn

theorem toList_eq_nil_iff (q : ArrayQueue α capacity) : q.toList = [] ↔ q.count = 0 := by
  rw [← List.length_eq_zero_iff, length_toList]

theorem toList_push (q : ArrayQueue α capacity) (a : α) (h : q.count < capacity) :
    (q.push a h).toList = q.toList ++ [a] := by
  apply List.ext_getElem
  · simp [push]
  · intro i hi hi'
    have hlt : i < q.count + 1 := by simpa [push] using hi
    simp only [toList, List.getElem_ofFn, push, List.getElem_append, List.length_ofFn,
      Function.update_apply]
    by_cases hq : i < q.count
    · have hne : (⟨i, Nat.lt_of_lt_of_le hlt h⟩ : Fin capacity) ≠ ⟨q.count, h⟩ := by
        intro he
        have hv : i = q.count := congrArg Fin.val he
        omega
      rw [if_neg hne, dif_pos hq]
    · have he : i = q.count := by omega
      subst he
      simp

theorem toList_pop (q : ArrayQueue α capacity) (h : 0 < q.count) :
    q.toList = q.front h :: q.pop.toList := by
  apply List.ext_getElem
  · simp only [length_toList, List.length_cons, pop]
    omega
  · intro i hi hi'
    rw [length_toList] at hi
    cases i with
    | zero => simp [toList, front]
    | succ i =>
      have hlt : i < q.count - 1 := by omega
      simp only [List.getElem_cons_succ, toList, List.getElem_ofFn, pop, shift_apply]
      rw [dif_pos hlt]

theorem front_mem (q : ArrayQueue α capacity) (h : 0 < q.count) : q.front h ∈ q.toList := by
  rw [toList_pop q h]
  exact List.mem_cons_self

end ArrayQueue

end ConnectionOrder
