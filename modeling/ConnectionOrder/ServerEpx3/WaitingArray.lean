import ConnectionOrder.Fifo
import ConnectionOrder.Memory
import ConnectionOrder.ServerEpx3.Runs

/-!
# The array of the waiting connections

non_persistent_queue and queue_count of server_epx3 as the code has them: a memory, an
int, and accesses whose index may be out of bounds. Where that happens, the result is
`none`.
-/

namespace ConnectionOrder.ServerEpx3

open Machine Memory

structure WaitingArray where
  nonPersistentQueue : List Connection
  queueCount : Int

namespace WaitingArray

/-- Both fields of the element at queue_count, and queue_count++. -/
def append (q : WaitingArray) (fd : Fd) (connectTime : Timeval) : Option WaitingArray :=
  (updateAt q.nonPersistentQueue q.queueCount fun c => { c with fd := fd }).bind fun queue =>
    (updateAt queue q.queueCount fun c => { c with connectTime := connectTime }).map fun queue =>
      ⟨queue, q.queueCount + 1⟩

/-- Lines 396 to 399. -/
def enqueueAccepted (q : WaitingArray) (clientFd : Fd) (connectTime : Timeval) :
    Option WaitingArray :=
  if q.queueCount < maxNonPersistent then q.append clientFd connectTime else some q

/-- Lines 423 to 426. -/
def enqueueDemoted (q : WaitingArray) (persistentFd : Fd) (conn1Start : Timeval) :
    Option WaitingArray :=
  if q.queueCount < maxNonPersistent then q.append persistentFd conn1Start else some q

/-- The first element and the array without it. -/
def removeFront (q : WaitingArray) : Option (Connection × WaitingArray) :=
  (readAt q.nonPersistentQueue 0).bind fun next =>
    (shiftFrom 0 (q.queueCount - 1).toNat q.nonPersistentQueue).map fun queue =>
      (next, ⟨queue, q.queueCount - 1⟩)

def dequeue (q : WaitingArray) : Option (List Connection × WaitingArray) :=
  if 0 < q.queueCount then q.removeFront.map fun found => ([found.1], found.2) else some ([], q)

/-- Lines 336 to 342. -/
def dequeueInactive (q : WaitingArray) : Option (List Connection × WaitingArray) := q.dequeue

/-- Lines 546 to 552. -/
def dequeueClosed (q : WaitingArray) : Option (List Connection × WaitingArray) := q.dequeue

/-- Lines 580 to 585: the kernel, active_clients and the array behind the loop. -/
def closeRemaining (q : WaitingArray) (k : Kernel) (activeClients : Int) :
    Option (Kernel × Int × WaitingArray) :=
  (foldFrom (fun (p : Kernel × Int) c => (p.1.close c.fd, p.2 - 1)) q.nonPersistentQueue
    (k, activeClients) 0 q.queueCount.toNat).map fun p => (p.1, p.2, { q with queueCount := 0 })

end WaitingArray

inductive QueueOp where
  | accepted (clientFd : Fd) (connectTime : Timeval)
  | demoted (persistentFd : Fd) (conn1Start : Timeval)
  | inactive
  | closed

def QueueOp.reference : QueueOp → Fifo.Op Connection
  | .accepted clientFd connectTime => .offer ⟨clientFd, connectTime⟩
  | .demoted persistentFd conn1Start => .offer ⟨persistentFd, conn1Start⟩
  | .inactive | .closed => .take

/-- The array with what has been written into it and what has been taken from it. -/
structure Trace where
  array : WaitingArray
  enqueued : List Connection
  promoted : List Connection

def Trace.start (memory : List Connection) : Trace := ⟨⟨memory, 0⟩, [], []⟩

def Trace.enqueue (t : Trace) (c : Connection) (array : WaitingArray) : Trace where
  array := array
  enqueued := if t.array.queueCount < maxNonPersistent then t.enqueued ++ [c] else t.enqueued
  promoted := t.promoted

def Trace.promote (t : Trace) (found : List Connection × WaitingArray) : Trace where
  array := found.2
  enqueued := t.enqueued
  promoted := t.promoted ++ found.1

def Trace.act (t : Trace) : QueueOp → Option Trace
  | .accepted clientFd connectTime =>
    (t.array.enqueueAccepted clientFd connectTime).map (t.enqueue ⟨clientFd, connectTime⟩)
  | .demoted persistentFd conn1Start =>
    (t.array.enqueueDemoted persistentFd conn1Start).map (t.enqueue ⟨persistentFd, conn1Start⟩)
  | .inactive => t.array.dequeueInactive.map t.promote
  | .closed => t.array.dequeueClosed.map t.promote

/-- The contents of the reference queue that is given the same operations. -/
def fifo (ops : List QueueOp) : List Connection :=
  run (Fifo.step maxNonPersistent) [] (ops.map QueueOp.reference)

/-! ## One operation -/

structure Holds (l : List Connection) (q : WaitingArray) : Prop where
  size : q.nonPersistentQueue.length = maxNonPersistent
  count : q.queueCount = l.length
  contents : q.nonPersistentQueue.take l.length = l

theorem Holds.length_le {l : List Connection} {q : WaitingArray} (h : Holds l q) :
    l.length ≤ maxNonPersistent := by
  have hlength := congrArg List.length h.contents
  rw [List.length_take, h.size] at hlength
  exact hlength ▸ Nat.min_le_right _ _

theorem Holds.append {l : List Connection} {q : WaitingArray} (h : Holds l q)
    (hroom : l.length < maxNonPersistent) (fd : Fd) (connectTime : Timeval) :
    ∃ q', q.append fd connectTime = some q' ∧ Holds (l ++ [⟨fd, connectTime⟩]) q' := by
  have hlt : l.length < q.nonPersistentQueue.length := h.size ▸ hroom
  have hfd := updateAt_natCast hlt fun c => { c with fd := fd }
  have hlt' : l.length < (q.nonPersistentQueue.set l.length
      { q.nonPersistentQueue[l.length] with fd := fd }).length := by
    rw [List.length_set]
    exact hlt
  have htime := updateAt_natCast hlt' fun c => { c with connectTime := connectTime }
  rw [List.getElem_set_self, List.set_set] at htime
  refine ⟨⟨q.nonPersistentQueue.set l.length ⟨fd, connectTime⟩, l.length + 1⟩, ?_, ?_⟩
  · rw [WaitingArray.append, h.count, hfd, Option.bind_some, htime]
    rfl
  · constructor
    · exact (List.length_set).trans h.size
    · rw [List.length_append]
      rfl
    · rw [List.length_append, List.length_singleton, take_succ_set hlt, h.contents]

theorem Holds.removeFront {c : Connection} {l : List Connection} {q : WaitingArray}
    (h : Holds (c :: l) q) : ∃ q', q.removeFront = some (c, q') ∧ Holds l q' := by
  have hle := h.length_le
  rw [List.length_cons] at hle
  have hlt : 0 + l.length < q.nonPersistentQueue.length := by
    rw [h.size]
    omega
  have hshift := shiftFrom_eq hlt
  have hnext : q.queueCount - 1 = l.length := by
    rw [h.count, List.length_cons]
    omega
  obtain ⟨hsize, _, hcontents⟩ := h
  cases hmemory : q.nonPersistentQueue with
  | nil =>
    rw [hmemory] at hcontents
    cases hcontents
  | cons first memory =>
    rw [hmemory, List.length_cons] at hsize
    rw [hmemory, List.length_cons, List.take_succ_cons, List.cons.injEq] at hcontents
    obtain ⟨rfl, hrest⟩ := hcontents
    rw [hmemory, List.take_zero, List.nil_append, Nat.zero_add, List.drop_succ_cons,
      List.drop_zero, hrest, Nat.zero_add] at hshift
    have hread : readAt (first :: memory) 0 = some first := rfl
    refine ⟨⟨l ++ (first :: memory).drop l.length, l.length⟩, ?_, ?_⟩
    · rw [WaitingArray.removeFront, hmemory, hread, Option.bind_some, hnext, Int.toNat_natCast,
        hshift]
      rfl
    · constructor
      · rw [List.length_append, List.length_drop, List.length_cons, hsize]
        omega
      · rfl
      · exact List.take_left

theorem Holds.dequeue {l : List Connection} {q : WaitingArray} (h : Holds l q) :
    ∃ q', q.dequeue = some (l.head?.toList, q') ∧ Holds l.tail q' := by
  rw [WaitingArray.dequeue]
  cases l with
  | nil =>
    have hnone : ¬0 < q.queueCount := by
      rw [h.count]
      exact Int.lt_irrefl 0
    rw [if_neg hnone]
    exact ⟨q, rfl, h⟩
  | cons c l =>
    have hsome : 0 < q.queueCount := by
      rw [h.count, List.length_cons]
      omega
    obtain ⟨q', hremove, hrest⟩ := h.removeFront
    rw [if_pos hsome, hremove]
    exact ⟨q', rfl, hrest⟩

/-- The trace after an operation that is offered to the reference queue as well. -/
structure Carries (l : List Connection) (t : Trace) (op : Fifo.Op Connection) (t' : Trace) :
    Prop where
  holds : Holds (Fifo.step maxNonPersistent l op) t'.array
  enqueued : t'.enqueued = t.enqueued ++ Fifo.accepted maxNonPersistent l op
  promoted : t'.promoted = t.promoted ++ Fifo.taken l op

theorem carries_enqueue {l : List Connection} {t : Trace} (h : Holds l t.array) (fd : Fd)
    (connectTime : Timeval) :
    ∃ t', (if t.array.queueCount < maxNonPersistent then t.array.append fd connectTime
        else some t.array).map (t.enqueue ⟨fd, connectTime⟩) = some t' ∧
      Carries l t (.offer ⟨fd, connectTime⟩) t' := by
  have hcount : t.array.queueCount < maxNonPersistent ↔ l.length < maxNonPersistent := by
    rw [h.count]
    exact Int.ofNat_lt
  cases Nat.lt_or_ge l.length maxNonPersistent with
  | inl hroom =>
    obtain ⟨array, happend, hnext⟩ := h.append hroom fd connectTime
    rw [if_pos (hcount.mpr hroom), happend]
    refine ⟨_, rfl, ?_⟩
    constructor
    · rw [Fifo.step, if_pos hroom]
      exact hnext
    · rw [Fifo.accepted, if_pos hroom]
      exact if_pos (hcount.mpr hroom)
    · exact (List.append_nil _).symm
  | inr hfull =>
    have hstop := not_congr hcount
    rw [if_neg (hstop.mpr (Nat.not_lt.mpr hfull))]
    refine ⟨_, rfl, ?_⟩
    constructor
    · rw [Fifo.step, if_neg (Nat.not_lt.mpr hfull)]
      exact h
    · rw [Fifo.accepted, if_neg (Nat.not_lt.mpr hfull), List.append_nil]
      exact if_neg (hstop.mpr (Nat.not_lt.mpr hfull))
    · exact (List.append_nil _).symm

theorem carries_dequeue {l : List Connection} {t : Trace} (h : Holds l t.array) :
    ∃ t', t.array.dequeue.map t.promote = some t' ∧ Carries l t .take t' := by
  obtain ⟨array, hdequeue, hnext⟩ := h.dequeue
  rw [hdequeue]
  exact ⟨_, rfl, hnext, (List.append_nil _).symm, rfl⟩

theorem carries_act {l : List Connection} {t : Trace} (h : Holds l t.array) (op : QueueOp) :
    ∃ t', t.act op = some t' ∧ Carries l t op.reference t' := by
  cases op with
  | accepted clientFd connectTime => exact carries_enqueue h clientFd connectTime
  | demoted persistentFd conn1Start => exact carries_enqueue h persistentFd conn1Start
  | inactive => exact carries_dequeue h
  | closed => exact carries_dequeue h

/-! ## Any number of operations -/

theorem holds_acts {l : List Connection} {t : Trace} (h : Holds l t.array) (ops : List QueueOp) :
    ∃ t', ops.foldlM Trace.act t = some t' ∧
      Holds (run (Fifo.step maxNonPersistent) l (ops.map QueueOp.reference)) t'.array ∧
      t'.enqueued = t.enqueued ++ collect (Fifo.step maxNonPersistent)
        (Fifo.accepted maxNonPersistent) l (ops.map QueueOp.reference) ∧
      t'.promoted = t.promoted ++ collect (Fifo.step maxNonPersistent) Fifo.taken l
        (ops.map QueueOp.reference) := by
  induction ops generalizing l t with
  | nil => exact ⟨t, rfl, h, (List.append_nil _).symm, (List.append_nil _).symm⟩
  | cons op ops ih =>
    obtain ⟨next, hact, hnext⟩ := carries_act h op
    obtain ⟨t', hrun, hholds, henqueued, hpromoted⟩ := ih hnext.holds
    refine ⟨t', ?_, hholds, ?_, ?_⟩
    · rw [List.foldlM_cons, hact]
      exact hrun
    · rw [henqueued, hnext.enqueued, List.append_assoc]
      rfl
    · rw [hpromoted, hnext.promoted, List.append_assoc]
      rfl

/-- What the lines behind the loop leave of the connections that still wait. -/
structure Shutdown (l : List Connection) (k : Kernel) (activeClients : Int)
    (found : Kernel × Int × WaitingArray) : Prop where
  closed : ∀ fd, fd ∈ found.1.sockets ↔ fd ∈ k.sockets ∧ fd ∉ l.map Connection.fd
  clients : found.2.1 = activeClients - l.length
  empty : found.2.2.queueCount = 0

theorem closes_rest (l : List Connection) (k : Kernel) (activeClients : Int) :
    let found := l.foldl (fun (p : Kernel × Int) c => (p.1.close c.fd, p.2 - 1)) (k, activeClients)
    (∀ fd, fd ∈ found.1.sockets ↔ fd ∈ k.sockets ∧ fd ∉ l.map Connection.fd) ∧
      found.2 = activeClients - l.length := by
  induction l generalizing k activeClients with
  | nil =>
    constructor
    · intro fd
      exact (and_iff_left List.not_mem_nil).symm
    · exact (Int.sub_zero activeClients).symm
  | cons c l ih =>
    obtain ⟨hclosed, hclients⟩ := ih (k.close c.fd) (activeClients - 1)
    constructor
    · intro fd
      refine (hclosed fd).trans ?_
      rw [Kernel.sockets_close, Finset.mem_erase, List.map_cons, List.mem_cons, not_or]
      exact (and_congr_left' and_comm).trans and_assoc
    · refine hclients.trans ?_
      rw [List.length_cons]
      omega

theorem Holds.closeRemaining {l : List Connection} {q : WaitingArray} (h : Holds l q) (k : Kernel)
    (activeClients : Int) :
    ∃ found, q.closeRemaining k activeClients = some found ∧ Shutdown l k activeClients found := by
  obtain ⟨hclosed, hclients⟩ := closes_rest l k activeClients
  have hall : 0 + l.length ≤ q.nonPersistentQueue.length := by
    rw [h.size, Nat.zero_add]
    exact h.length_le
  rw [WaitingArray.closeRemaining, h.count, Int.toNat_natCast, foldFrom_eq _ hall, List.drop_zero,
    h.contents]
  exact ⟨_, rfl, hclosed, hclients, rfl⟩

/-- The array and the reference queue after the same operations. An entry of `enqueued`
is in `promoted`, each at its place, or in the queue, and then closed at the end. -/
structure Implements (ops : List QueueOp) (t : Trace) : Prop where
  lower : 0 ≤ t.array.queueCount
  upper : t.array.queueCount ≤ maxNonPersistent
  contents : t.array.nonPersistentQueue.take t.array.queueCount.toNat = fifo ops
  order : t.enqueued = t.promoted ++ fifo ops
  shutdown : ∀ k activeClients, ∃ found, t.array.closeRemaining k activeClients = some found ∧
    Shutdown (fifo ops) k activeClients found

theorem Holds.implements {ops : List QueueOp} {t : Trace} (h : Holds (fifo ops) t.array)
    (horder : t.enqueued = t.promoted ++ fifo ops) : Implements ops t where
  lower := by
    rw [h.count]
    exact Int.natCast_nonneg _
  upper := by
    rw [h.count]
    exact Int.ofNat_le.mpr h.length_le
  contents := by
    rw [h.count, Int.toNat_natCast]
    exact h.contents
  order := horder
  shutdown := h.closeRemaining

theorem holds_start (memory : Fin maxNonPersistent → Connection) :
    Holds [] (Trace.start (List.ofFn memory)).array where
  size := List.length_ofFn
  count := rfl
  contents := rfl

theorem implements_acts (memory : Fin maxNonPersistent → Connection) (ops : List QueueOp) :
    ∃ t, ops.foldlM Trace.act (Trace.start (List.ofFn memory)) = some t ∧ Implements ops t ∧
      t.promoted = collect (Fifo.step maxNonPersistent) Fifo.taken []
        (ops.map QueueOp.reference) := by
  obtain ⟨t, hrun, hholds, henqueued, hpromoted⟩ := holds_acts (holds_start memory) ops
  have horder : t.enqueued = t.promoted ++ fifo ops := by
    rw [henqueued, hpromoted]
    exact Fifo.collect_accepted maxNonPersistent [] (ops.map QueueOp.reference)
  exact ⟨t, hrun, hholds.implements horder, hpromoted⟩

/-! ## The operations of a run -/

/-- A connection is ended by inactivity behind epoll_wait, or by its own event. -/
def dequeueSite : Input → QueueOp
  | .wait .. => .inactive
  | .event _ | .signal => .closed

/-- What a step does with the array. -/
def queueOps (s : State) (i : Input) : List QueueOp :=
  match action s i with
  | .place fd connectTime =>
    if s.slots.persistentFd = -1 ∨ s.slots.nonPersistentFd = -1 then []
    else [.accepted fd connectTime]
  | .data fd chunk _ _ =>
    if Misidentified s fd chunk ∧ s.slots.nonPersistentFd ≠ -1 then
      [.demoted s.slots.persistentFd s.clocks.conn1Start]
    else []
  | .finish => [dequeueSite i]
  | .quiet | .leave _ | .stray _ => []

/-- The connection a step promotes. -/
def promotions (s : State) (i : Input) : List Connection :=
  match action s i with
  | .finish => s.slots.nonPersistentQueue.toList.head?.toList
  | .quiet | .place .. | .data .. | .leave _ | .stray _ => []

theorem toList_push_eq (q : ArrayQueue Connection maxNonPersistent) (c : Connection) :
    (if h : q.count < maxNonPersistent then q.push c h else q).toList =
      Fifo.step maxNonPersistent q.toList (.offer c) := by
  rw [Fifo.step, ArrayQueue.length_toList]
  split
  · exact ArrayQueue.toList_push q c _
  · rfl

theorem queue_place_free {s : State} (fd : Fd) (connectTime : Timeval) (add : Bool)
    (hfree : s.slots.persistentFd = -1 ∨ s.slots.nonPersistentFd = -1) :
    (perform s add (.place fd connectTime)).slots.nonPersistentQueue =
      s.slots.nonPersistentQueue := by
  rw [perform, placeClient]
  split
  · rw [slots_registerClient]
  · rename_i hpersistent
    rw [if_pos (hfree.resolve_left hpersistent), slots_registerClient]

theorem queue_place_busy {s : State} (fd : Fd) (connectTime : Timeval) (add : Bool)
    (hbusy : ¬(s.slots.persistentFd = -1 ∨ s.slots.nonPersistentFd = -1)) :
    (perform s add (.place fd connectTime)).slots.nonPersistentQueue.toList =
      Fifo.step maxNonPersistent s.slots.nonPersistentQueue.toList (.offer ⟨fd, connectTime⟩) := by
  obtain ⟨hpersistent, hnonPersistent⟩ := not_or.mp hbusy
  rw [← toList_push_eq, perform, placeClient, if_neg hpersistent, if_neg hnonPersistent]
  dsimp only
  split <;> rfl

theorem queue_demote_busy {s : State} (fd : Fd) (hbusy : s.slots.nonPersistentFd ≠ -1) :
    (demote s fd).slots.nonPersistentQueue.toList =
      Fifo.step maxNonPersistent s.slots.nonPersistentQueue.toList
        (.offer ⟨s.slots.persistentFd, s.clocks.conn1Start⟩) := by
  rw [← toList_push_eq, demote, if_neg hbusy]
  split <;> rfl

theorem queue_data (s : State) (add : Bool) (fd : Fd) (chunk : Chunk bufferSize)
    (time endTime : Timeval) :
    (perform s add (.data fd chunk time endTime)).slots.nonPersistentQueue.toList =
      if Misidentified s fd chunk ∧ s.slots.nonPersistentFd ≠ -1 then
        Fifo.step maxNonPersistent s.slots.nonPersistentQueue.toList
          (.offer ⟨s.slots.persistentFd, s.clocks.conn1Start⟩)
      else s.slots.nonPersistentQueue.toList := by
  obtain ⟨_, _, _, _, hshape⟩ := readData_shape s fd chunk time endTime
  rw [perform, hshape]
  dsimp only
  cases Decidable.em (Misidentified s fd chunk) with
  | inr hmis => rw [if_neg hmis, if_neg fun h => hmis h.1]
  | inl hmis =>
    rw [if_pos hmis]
    cases eq_or_ne s.slots.nonPersistentFd (-1) with
    | inl hfree =>
      rw [if_neg fun h => h.2 hfree, demote, if_pos hfree]
    | inr hbusy =>
      rw [if_pos ⟨hmis, hbusy⟩]
      exact queue_demote_busy fd hbusy

theorem queue_promote (s : State) (add : Bool) :
    (promoteQueued s add).slots.nonPersistentQueue.toList =
      Fifo.step maxNonPersistent s.slots.nonPersistentQueue.toList .take := by
  rw [Fifo.step, promoteQueued]
  split
  · rename_i hcount
    rw [ArrayQueue.toList_pop _ hcount, List.tail_cons]
    split <;> rfl
  · rename_i hcount
    have hnil := (ArrayQueue.toList_eq_nil_iff s.slots.nonPersistentQueue).mpr (by omega)
    rw [hnil, List.tail_nil]

/-- A step treats the queue as the reference treats its own. -/
theorem queueOps_step (s : State) (i : Input) :
    run (Fifo.step maxNonPersistent) s.slots.nonPersistentQueue.toList
        ((queueOps s i).map QueueOp.reference) = (step s i).slots.nonPersistentQueue.toList ∧
      collect (Fifo.step maxNonPersistent) Fifo.taken s.slots.nonPersistentQueue.toList
        ((queueOps s i).map QueueOp.reference) = promotions s i := by
  obtain ⟨_, _, _, halike⟩ := step_alike s i
  rw [halike, queueOps, promotions]
  dsimp only
  cases action s i with
  | quiet | leave | stray => exact ⟨rfl, rfl⟩
  | place fd connectTime =>
    dsimp only
    split
    · rename_i hfree
      rw [queue_place_free fd connectTime i.add hfree]
      exact ⟨rfl, rfl⟩
    · rename_i hbusy
      rw [queue_place_busy fd connectTime i.add hbusy]
      exact ⟨rfl, rfl⟩
  | data fd chunk time endTime =>
    dsimp only
    rw [queue_data]
    split <;> exact ⟨rfl, rfl⟩
  | finish =>
    have hqueue := queue_promote (expireInactive s) i.add
    rw [perform, hqueue]
    have hsite : (dequeueSite i).reference = .take := by
      cases i <;> rfl
    rw [List.map_singleton, hsite]
    exact ⟨rfl, List.append_nil _⟩

theorem queueOps_run (x : Run) :
    fifo (x.observed queueOps) = x.final.slots.nonPersistentQueue.toList ∧
      collect (Fifo.step maxNonPersistent) Fifo.taken []
        ((x.observed queueOps).map QueueOp.reference) = x.observed promotions := by
  have hstart : x.start.slots.nonPersistentQueue.toList = [] := by
    obtain ⟨_, _, _, _, _, hinit⟩ := x.begins
    rw [hinit]
    rfl
  apply x.history_induction (P := fun is =>
    fifo (collect step queueOps x.start is) =
      (run step x.start is).slots.nonPersistentQueue.toList ∧
    collect (Fifo.step maxNonPersistent) Fifo.taken []
        ((collect step queueOps x.start is).map QueueOp.reference) =
      collect step promotions x.start is)
  · exact ⟨hstart.symm, rfl⟩
  · intro is i _ _ ih
    obtain ⟨hqueue, htaken⟩ := queueOps_step (run step x.start is) i
    rw [fifo] at ih
    rw [fifo, collect_snoc, collect_snoc, List.map_append, run_append, collect_append, ih.1, ih.2,
      run_snoc]
    exact ⟨hqueue, congrArg _ htaken⟩

/-- The slot receives both fields of the entry; where EPOLL_CTL_ADD is refused, the
entry is closed and the slot is free again. -/
structure Promoted (c : Connection) (add : Bool) (s' : State) : Prop where
  time : s'.slots.nonPersistentConnectTime = c.connectTime
  slot : s'.slots.nonPersistentFd = if add then c.fd else -1
  refused : add = false → c.fd ∉ s'.kernel.sockets

theorem promoted_step {s : State} {i : Input} {c : Connection} (h : c ∈ promotions s i) :
    Promoted c i.add (step s i) := by
  obtain ⟨_, _, _, halike⟩ := step_alike s i
  rw [halike]
  rw [promotions] at h
  cases haction : action s i with
  | quiet | place | data | leave | stray =>
    rw [haction] at h
    cases h
  | finish =>
    rw [haction] at h
    dsimp only at h
    cases Nat.eq_zero_or_pos s.slots.nonPersistentQueue.count with
    | inl hzero =>
      rw [(ArrayQueue.toList_eq_nil_iff _).mpr hzero] at h
      cases h
    | inr hcount =>
      have hcount' : 0 < (expireInactive s).slots.nonPersistentQueue.count := hcount
      rw [ArrayQueue.toList_pop _ hcount, List.head?_cons, Option.toList_some,
        List.mem_singleton] at h
      rw [h, perform, promoteQueued, dif_pos hcount']
      cases i.add with
      | true => exact ⟨rfl, rfl, fun hfalse => absurd hfalse (by decide)⟩
      | false => exact ⟨rfl, rfl, fun _ => Finset.notMem_erase _ _⟩

/-- For every sequence of operations, and in every run, the array is the bounded queue:
every index is one of the array, and what has been enqueued is what has been promoted,
followed by what waits. -/
theorem waiting_array_is_fifo :
    (∀ (memory : Fin maxNonPersistent → Connection) (ops : List QueueOp),
      ∃ t, ops.foldlM Trace.act (Trace.start (List.ofFn memory)) = some t ∧ Implements ops t) ∧
    ∀ x : Run, ∃ t,
      (x.observed queueOps).foldlM Trace.act
        (Trace.start (List.ofFn x.start.slots.nonPersistentQueue.slots)) = some t ∧
      Implements (x.observed queueOps) t ∧
      fifo (x.observed queueOps) = x.final.slots.nonPersistentQueue.toList ∧
      t.promoted = x.observed promotions ∧
      ∀ n (hn : n < x.inputs.length), ∀ c ∈ promotions (x.stateAt n) x.inputs[n],
        Promoted c x.inputs[n].add (x.stateAt (n + 1)) := by
  constructor
  · intro memory ops
    obtain ⟨t, hrun, himplements, _⟩ := implements_acts memory ops
    exact ⟨t, hrun, himplements⟩
  · intro x
    obtain ⟨t, hrun, himplements, hpromoted⟩ :=
      implements_acts x.start.slots.nonPersistentQueue.slots (x.observed queueOps)
    obtain ⟨hqueue, htaken⟩ := queueOps_run x
    refine ⟨t, hrun, himplements, hqueue, hpromoted.trans htaken, ?_⟩
    intro n hn c hc
    rw [x.stateAt_succ hn]
    exact promoted_step hc

end ConnectionOrder.ServerEpx3
