import ConnectionOrder.Occurrences
import ConnectionOrder.ServerEpx3.WaitingArray

/-!
# How long a connection waits

From any state on, each end of the non-persistent connection promotes one of the
connections that wait there, in the order of the queue and before any that comes
later. What waits is gone after at most maxNonPersistent of them.
-/

namespace ConnectionOrder.ServerEpx3

open Machine

def Action.ends : Action → Bool
  | .finish => true
  | .quiet | .place .. | .data .. | .leave _ | .stray _ => false

/-- The step ends the non-persistent connection. -/
def Finishes (s : State) (i : Input) : Prop := (action s i).ends = true

instance (s : State) (i : Input) : Decidable (Finishes s i) :=
  inferInstanceAs (Decidable (_ = _))

/-- The connections a step appends to the queue. -/
def joins (s : State) (i : Input) : List Connection :=
  collect (Fifo.step maxNonPersistent) (Fifo.accepted maxNonPersistent)
    s.slots.nonPersistentQueue.toList ((queueOps s i).map QueueOp.reference)

theorem countP_queueOps (s : State) (i : Input) :
    ((queueOps s i).map QueueOp.reference).countP Fifo.Op.isTake =
      if Finishes s i then 1 else 0 := by
  have hsite : (dequeueSite i).reference = .take := by
    cases i <;> rfl
  cases ha : action s i with
  | finish =>
    have hends : Finishes s i := by rw [Finishes, ha, Action.ends]
    simp only [queueOps, ha]
    rw [if_pos hends, List.map_singleton, hsite]
    rfl
  | quiet | leave | stray =>
    have hgoes : ¬Finishes s i := by rw [Finishes, ha]; exact Bool.false_ne_true
    simp only [queueOps, ha]
    rw [if_neg hgoes]
    rfl
  | place fd connectTime | data fd chunk time endTime =>
    have hgoes : ¬Finishes s i := by rw [Finishes, ha]; exact Bool.false_ne_true
    simp only [queueOps, ha]
    rw [if_neg hgoes]
    split <;> rfl

/-- A stretch of a run treats the queue as the reference treats its own. -/
theorem queueOps_stretch (s : State) (is : List Input) :
    let ops := (collect step queueOps s is).map QueueOp.reference
    let waiting := s.slots.nonPersistentQueue.toList
    run (Fifo.step maxNonPersistent) waiting ops =
        (run step s is).slots.nonPersistentQueue.toList ∧
      collect (Fifo.step maxNonPersistent) Fifo.taken waiting ops = collect step promotions s is ∧
      collect (Fifo.step maxNonPersistent) (Fifo.accepted maxNonPersistent) waiting ops =
        collect step joins s is ∧
      ops.countP Fifo.Op.isTake = times Finishes step s is := by
  induction is generalizing s with
  | nil => exact ⟨rfl, rfl, rfl, rfl⟩
  | cons i is ih =>
    obtain ⟨hqueue, htaken⟩ := queueOps_step s i
    obtain ⟨hqueues, htakens, hjoins, hcount⟩ := ih (step s i)
    dsimp only
    rw [collect, List.map_append, run_append, collect_append, collect_append, List.countP_append,
      hqueue, htaken, hqueues, htakens, hjoins, hcount, countP_queueOps]
    exact ⟨rfl, rfl, rfl, rfl⟩

/-- From any state of a run to its end: the connections promoted begin with the ones that
waited, one for each end of a non-persistent connection; while these do not outnumber them
no other is promoted, and the rest waits ahead of those that joined. After
maxNonPersistent of them all have been promoted. -/
theorem promoted_in_turn (x : Run) (n : Nat) :
    let waiting := (x.stateAt n).slots.nonPersistentQueue.toList
    let later := x.inputs.drop n
    let ends := times Finishes step (x.stateAt n) later
    let promoted := collect step promotions (x.stateAt n) later
    waiting.take ends <+: promoted ∧
      (ends ≤ waiting.length → promoted = waiting.take ends ∧
        x.final.slots.nonPersistentQueue.toList =
          waiting.drop ends ++ collect step joins (x.stateAt n) later) ∧
      (maxNonPersistent ≤ ends → waiting <+: promoted) := by
  obtain ⟨hqueue, htaken, hjoins, hcount⟩ := queueOps_stretch (x.stateAt n) (x.inputs.drop n)
  dsimp only at hqueue htaken hjoins hcount ⊢
  have hfinal : run step (x.stateAt n) (x.inputs.drop n) = x.final := by
    rw [Execution.stateAt, ← run_append, List.take_append_drop, Execution.final]
  rw [hfinal] at hqueue
  have hfront := Fifo.take_prefix_taken maxNonPersistent
    (x.stateAt n).slots.nonPersistentQueue.toList
    ((collect step queueOps (x.stateAt n) (x.inputs.drop n)).map QueueOp.reference)
  rw [hcount, htaken] at hfront
  refine ⟨hfront, ?_, ?_⟩
  · intro hfew
    rw [← hcount] at hfew
    obtain ⟨hexact, hrest⟩ := Fifo.taken_eq_take maxNonPersistent hfew
    rw [hcount, htaken] at hexact
    rw [hcount, hqueue, hjoins] at hrest
    exact ⟨hexact, hrest⟩
  · intro hmany
    have hall : (x.stateAt n).slots.nonPersistentQueue.toList.length ≤
        times Finishes step (x.stateAt n) (x.inputs.drop n) := by
      rw [ArrayQueue.length_toList]
      exact (x.stateAt n).slots.nonPersistentQueue.bound.trans hmany
    rwa [List.take_of_length_le hall] at hfront

end ConnectionOrder.ServerEpx3
