import ConnectionOrder.Machine

/-!
# The bounded first-in first-out queue

The reference that an implementation is compared with: a list that is appended to up to
a capacity and taken from at its front. What was accepted is at any time what was taken,
followed by what is left, in the same order.
-/

namespace ConnectionOrder.Fifo

open Machine

universe u

variable {α : Type u}

inductive Op (α : Type u) where
  | offer (a : α)
  | take

variable (capacity : Nat)

def step (l : List α) : Op α → List α
  | .offer a => if l.length < capacity then l ++ [a] else l
  | .take => l.tail

def accepted (l : List α) : Op α → List α
  | .offer a => if l.length < capacity then [a] else []
  | .take => []

def taken (l : List α) : Op α → List α
  | .offer _ => []
  | .take => l.head?.toList

theorem append_accepted (l : List α) (op : Op α) :
    l ++ accepted capacity l op = taken l op ++ step capacity l op := by
  cases op with
  | offer a =>
    rw [accepted, taken, step, List.nil_append]
    split
    · rfl
    · exact List.append_nil l
  | take =>
    rw [accepted, taken, step, List.append_nil]
    cases l with
    | nil => rfl
    | cons a l => rfl

/-- Nothing is lost, invented or overtaken. -/
theorem collect_accepted (l : List α) (ops : List (Op α)) :
    l ++ collect (step capacity) (accepted capacity) l ops =
      collect (step capacity) taken l ops ++ run (step capacity) l ops := by
  induction ops generalizing l with
  | nil => exact List.append_nil l
  | cons op ops ih =>
    rw [collect, collect, run_cons, ← List.append_assoc, append_accepted, List.append_assoc, ih,
      List.append_assoc]

/-! ## Waiting -/

def Op.isTake : Op α → Bool
  | .offer _ => false
  | .take => true

/-- What was in the queue is taken before anything that came later, one by each take. -/
theorem take_prefix_taken (l : List α) (ops : List (Op α)) :
    l.take (ops.countP Op.isTake) <+: collect (step capacity) taken l ops := by
  induction ops generalizing l with
  | nil => exact List.prefix_refl _
  | cons op ops ih =>
    cases op with
    | offer a =>
      have hcount : (Op.offer a :: ops).countP Op.isTake = ops.countP Op.isTake := rfl
      have hstep : l <+: step capacity l (.offer a) := by
        rw [step]
        split
        · exact List.prefix_append l [a]
        · exact List.prefix_refl l
      rw [hcount]
      have hcut := List.prefix_take_iff.mpr
        ⟨(List.take_prefix (ops.countP Op.isTake) l).trans hstep, List.length_take_le _ _⟩
      exact hcut.trans (ih _)
    | take =>
      have hcount : (Op.take :: ops).countP Op.isTake = ops.countP Op.isTake + 1 :=
        List.countP_cons_of_pos rfl
      rw [hcount]
      cases l with
      | nil => exact List.nil_prefix
      | cons a l => exact (List.prefix_cons_inj a).mpr (ih l)

theorem length_taken_le (l : List α) (ops : List (Op α)) :
    (collect (step capacity) taken l ops).length ≤ ops.countP Op.isTake := by
  induction ops generalizing l with
  | nil => exact Nat.le_refl 0
  | cons op ops ih =>
    rw [collect, List.length_append]
    cases op with
    | offer a =>
      have hcount : (Op.offer a :: ops).countP Op.isTake = ops.countP Op.isTake := rfl
      rw [taken, List.length_nil, Nat.zero_add, hcount]
      exact ih _
    | take =>
      have hone : (taken l .take).length ≤ 1 := by
        cases l with
        | nil => exact Nat.zero_le 1
        | cons a l => exact Nat.le_refl 1
      rw [List.countP_cons_of_pos rfl, Nat.add_comm]
      exact Nat.add_le_add (ih _) hone

/-- As long as the takes do not outnumber what was in the queue, nothing else is taken. -/
theorem taken_eq_take {l : List α} {ops : List (Op α)} (h : ops.countP Op.isTake ≤ l.length) :
    collect (step capacity) taken l ops = l.take (ops.countP Op.isTake) ∧
      run (step capacity) l ops =
        l.drop (ops.countP Op.isTake) ++ collect (step capacity) (accepted capacity) l ops := by
  have htaken : collect (step capacity) taken l ops = l.take (ops.countP Op.isTake) := by
    refine ((take_prefix_taken capacity l ops).eq_of_length_le ?_).symm
    rw [List.length_take, Nat.min_eq_left h]
    exact length_taken_le capacity l ops
  refine ⟨htaken, ?_⟩
  have hall := collect_accepted capacity l ops
  rw [htaken] at hall
  nth_rewrite 1 [← List.take_append_drop (ops.countP Op.isTake) l] at hall
  rw [List.append_assoc] at hall
  exact (List.append_cancel_left hall).symm

end ConnectionOrder.Fifo
