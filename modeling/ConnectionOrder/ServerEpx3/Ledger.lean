import ConnectionOrder.Occurrences
import ConnectionOrder.ServerEpx3.Branches

/-!
# What becomes of the accepted connections

Every accepted connection is in a slot, in the queue, rejected, finished and counted
in connection_count, or gone without a record. active_clients is compared with what
the slots and the queue name, not with what is open.
-/

namespace ConnectionOrder.ServerEpx3

open Machine

def filled (fd : Fd) : Int := if fd = -1 then 0 else 1

/-- The connections that the slots and the queue name. -/
def held (slots : Slots) : Int :=
  filled slots.persistentFd + filled slots.nonPersistentFd + slots.nonPersistentQueue.count

/-- The persistent client leaves, or a promotion is refused. -/
def Unrecorded (s : State) (i : Input) : Prop :=
  match action s i with
  | .leave _ => True
  | .finish => PromotionRefused s i.add
  | .quiet | .place .. | .data .. | .stray _ => False

instance (s : State) (i : Input) : Decidable (Unrecorded s i) := by
  unfold Unrecorded
  match action s i with
  | .finish => infer_instance
  | .quiet | .place .. | .data .. | .leave _ | .stray _ => infer_instance

def Stray (s : State) (i : Input) : Prop :=
  match action s i with
  | .stray _ => True
  | .quiet | .place .. | .data .. | .leave _ | .finish => False

instance (s : State) (i : Input) : Decidable (Stray s i) := by
  unfold Stray
  match action s i with
  | .quiet | .place .. | .data .. | .leave _ | .finish | .stray _ => infer_instance

/-- active_clients goes down and the slots and the queue name as many as before. -/
def Uncounted (s : State) (i : Input) : Prop := Stray s i ∨ FailedAdd s i

instance (s : State) (i : Input) : Decidable (Uncounted s i) :=
  inferInstanceAs (Decidable (_ ∨ _))

def unrecorded (s : State) : Int :=
  s.kernel.accepted - (held s.slots + s.rejected + s.report.connectionCount)

def excess (s : State) : Int := held s.slots - s.activeClients

/-! ## The actions -/

/-- Between two states `recorded` more connections were rejected or finished, and
`dropped` more were let go by active_clients. -/
structure Moves (s s' : State) (recorded dropped : Int) : Prop where
  held : held s'.slots + dropped = held s.slots
  clients : s'.activeClients + dropped = s.activeClients
  records : s'.rejected + s'.report.connectionCount =
    s.rejected + s.report.connectionCount + recorded

theorem Moves.of_eq {s s' : State} (hheld : ServerEpx3.held s'.slots = ServerEpx3.held s.slots)
    (hclients : s'.activeClients = s.activeClients) (hrejected : s'.rejected = s.rejected)
    (hreport : s'.report = s.report) : Moves s s' 0 0 where
  held := by rw [hheld, Int.add_zero]
  clients := by rw [hclients, Int.add_zero]
  records := by rw [hrejected, hreport, Int.add_zero]

theorem Moves.trans {s t u : State} {m n m' n' : Int} (h : Moves s t m n) (h' : Moves t u m' n') :
    Moves s u (m + m') (n + n') where
  held := by
    have h1 := h.held
    have h2 := h'.held
    omega
  clients := by
    have h1 := h.clients
    have h2 := h'.clients
    omega
  records := by
    have h1 := h.records
    have h2 := h'.records
    omega

theorem filled_free : filled (-1) = 0 := rfl

theorem filled_busy {fd : Fd} (h : fd ≠ -1) : filled fd = 1 := if_neg h

theorem held_nonneg (slots : Slots) : 0 ≤ held slots := by
  have hfilled : ∀ fd, 0 ≤ filled fd := by
    intro fd
    rw [filled]
    split <;> decide
  have hper := hfilled slots.persistentFd
  have hnon := hfilled slots.nonPersistentFd
  rw [held]
  omega

theorem connectionCount_record (r : Report) (p : Progress) (duration : ℚ) :
    ((r.record p duration).connectionCount : Int) = r.connectionCount + 1 := by
  rw [Report.record]
  split <;> rfl

/-- The queue without its first element, which takes the free slot or is dropped. -/
theorem moves_promote {s : State} (add : Bool) (hfree : s.slots.nonPersistentFd = -1)
    (hqueue : ∀ fd ∈ queued s.slots, 0 ≤ fd) :
    Moves s (promoteQueued s add) 0 (if PromotionRefused s add then 1 else 0) := by
  rw [promoteQueued]
  split
  · rename_i hcount
    have hfront := filled_busy (ne_sentinel (hqueue _ (front_mem_queued s.slots hcount)))
    have hpop : (s.slots.nonPersistentQueue.pop.count : Int) =
        s.slots.nonPersistentQueue.count - 1 := Int.ofNat_sub hcount
    have hheld : held s.slots =
        filled s.slots.persistentFd + 0 + s.slots.nonPersistentQueue.count := by
      rw [held, hfree, filled_free]
    cases add with
    | true =>
      have hkept : ¬PromotionRefused s true := fun h => Bool.noConfusion h.2
      rw [if_neg hkept]
      refine Moves.of_eq ?_ rfl rfl rfl
      change filled s.slots.persistentFd +
        filled (s.slots.nonPersistentQueue.front hcount).fd +
        (s.slots.nonPersistentQueue.pop.count : Int) = held s.slots
      rw [hheld, hfront, hpop]
      omega
    | false =>
      have hrefused : PromotionRefused s false := ⟨hcount, rfl⟩
      rw [if_pos hrefused]
      refine ⟨?_, Int.sub_add_cancel _ _, (Int.add_zero _).symm⟩
      change filled s.slots.persistentFd + 0 +
        (s.slots.nonPersistentQueue.pop.count : Int) + 1 = held s.slots
      rw [hheld, hpop]
      omega
  · rename_i hcount
    have hkept : ¬PromotionRefused s add := fun h => hcount h.1
    rw [if_neg hkept]
    exact Moves.of_eq rfl rfl rfl rfl

theorem moves_expire {s : State} (hbusy : s.slots.nonPersistentFd ≠ -1) :
    Moves s (expireInactive s) 1 1 where
  held := by
    change filled s.slots.persistentFd + 0 + (s.slots.nonPersistentQueue.count : Int) + 1 = _
    rw [held, filled_busy hbusy]
    omega
  clients := Int.sub_add_cancel _ _
  records := by
    have hrecord := connectionCount_record s.report s.progress (oneconn2Duration s)
    change s.rejected +
      ((s.report.record s.progress (oneconn2Duration s)).connectionCount : Int) = _
    rw [hrecord, Int.add_assoc]

theorem moves_leave {s : State} (time : Timeval) (hbusy : s.slots.persistentFd ≠ -1) :
    Moves s (leavePersistent s time) 0 1 where
  held := by
    change 0 + filled s.slots.nonPersistentFd + (s.slots.nonPersistentQueue.count : Int) + 1 = _
    rw [held, filled_busy hbusy]
    omega
  clients := Int.sub_add_cancel _ _
  records := (Int.add_zero _).symm

theorem moves_demote {s : State} (fd : Fd) (hbusy : s.slots.persistentFd ≠ -1) :
    Moves s (demote s fd) (if DemotionRejected s then 1 else 0)
      (if DemotionRejected s then 1 else 0) := by
  have hheld : held s.slots =
      1 + filled s.slots.nonPersistentFd + s.slots.nonPersistentQueue.count := by
    rw [held, filled_busy hbusy]
  rw [demote]
  split
  · rename_i hnon
    have hkept : ¬DemotionRejected s := fun h => h.1 hnon
    rw [if_neg hkept]
    refine Moves.of_eq ?_ rfl rfl rfl
    change 0 + filled s.slots.persistentFd + (s.slots.nonPersistentQueue.count : Int) = _
    rw [hheld, hnon, filled_free, filled_busy hbusy]
    omega
  · rename_i hnon
    split
    · rename_i hroom
      have hkept : ¬DemotionRejected s := fun h => h.2 hroom
      rw [if_neg hkept]
      refine Moves.of_eq ?_ rfl rfl rfl
      change 0 + filled s.slots.nonPersistentFd +
        (s.slots.nonPersistentQueue.count + 1 : Int) = _
      rw [hheld]
      omega
    · rename_i hroom
      have hrejected : DemotionRejected s := ⟨hnon, hroom⟩
      rw [if_pos hrejected]
      refine ⟨?_, Int.sub_add_cancel _ _, Int.add_right_comm _ _ _⟩
      change 0 + filled s.slots.nonPersistentFd +
        (s.slots.nonPersistentQueue.count : Int) + 1 = _
      rw [hheld]
      omega

theorem moves_data {s : State} (add : Bool) {fd : Fd} (hopen : fd ≠ -1)
    (chunk : Chunk bufferSize) (time endTime : Timeval) :
    ∃ recorded, Moves s (perform s add (.data fd chunk time endTime)) recorded recorded := by
  obtain ⟨_, _, _, _, hshape⟩ := readData_shape s fd chunk time endTime
  rw [perform, hshape]
  split
  · rename_i hmis
    have hbusy : s.slots.persistentFd ≠ -1 := hmis.1 ▸ hopen
    obtain ⟨hheld, hclients, hrecords⟩ := moves_demote fd hbusy
    exact ⟨_, hheld, hclients, hrecords⟩
  · exact ⟨0, Moves.of_eq rfl rfl rfl rfl⟩

/-! ## One step -/

theorem alike_unrecorded {s s' : State} (h : Alike s s') : unrecorded s' = unrecorded s := by
  obtain ⟨_, _, _, rfl⟩ := h
  rfl

theorem alike_excess {s s' : State} (h : Alike s s') : excess s' = excess s := by
  obtain ⟨_, _, _, rfl⟩ := h
  rfl

theorem Moves.unrecorded {s s' : State} {recorded dropped : Int} (h : Moves s s' recorded dropped)
    (haccepted : s'.kernel.accepted = s.kernel.accepted) :
    unrecorded s' = unrecorded s + (dropped - recorded) := by
  have hheld := h.held
  have hrecords := h.records
  rw [ServerEpx3.unrecorded, ServerEpx3.unrecorded, haccepted]
  omega

theorem Moves.excess {s s' : State} {recorded dropped : Int} (h : Moves s s' recorded dropped) :
    excess s' = excess s := by
  have hheld := h.held
  have hclients := h.clients
  rw [ServerEpx3.excess, ServerEpx3.excess]
  omega

/-- An accepted connection, with the slots and the queue it has been put into. -/
def admitted (s : State) (fd : Fd) (slots : Slots) : State :=
  { s with
    kernel := s.kernel.accept fd
    activeClients := s.activeClients + 1
    slots := slots }

theorem ledger_admitted (s : State) (fd : Fd) {slots : Slots} (h : held slots = held s.slots + 1) :
    unrecorded (admitted s fd slots) = unrecorded s ∧ excess (admitted s fd slots) = excess s := by
  have haccepted : ((s.kernel.accepted + 1 : Nat) : Int) = s.kernel.accepted + 1 := rfl
  constructor
  · change ((s.kernel.accepted + 1 : Nat) : Int) -
      (held slots + s.rejected + s.report.connectionCount) = unrecorded s
    rw [haccepted, h, unrecorded]
    omega
  · change held slots - (s.activeClients + 1) = excess s
    rw [h, excess]
    omega

theorem ledger_register (s : State) (fd : Fd) (add : Bool) :
    unrecorded (registerClient s fd add) = unrecorded s ∧
      excess (registerClient s fd add) = excess s + if add = false then 1 else 0 := by
  rw [registerClient]
  cases add with
  | true => exact ⟨rfl, (Int.add_zero _).symm⟩
  | false =>
    refine ⟨rfl, ?_⟩
    change held s.slots - (s.activeClients - 1) = excess s + 1
    rw [excess]
    omega

theorem ledger_registered {s : State} (fd : Fd) {slots : Slots} (add : Bool)
    (h : held slots = held s.slots + 1) :
    unrecorded (registerClient (admitted s fd slots) fd add) = unrecorded s ∧
      excess (registerClient (admitted s fd slots) fd add) =
        excess s + if add = false then 1 else 0 := by
  obtain ⟨hun, hex⟩ := ledger_admitted s fd h
  obtain ⟨hun', hex'⟩ := ledger_register (admitted s fd slots) fd add
  exact ⟨hun'.trans hun, hex'.trans (by rw [hex])⟩

theorem ledger_place {s : State} {fd : Fd} (hopen : fd ≠ -1) (connectTime : Timeval)
    (add : Bool) :
    unrecorded (perform s add (.place fd connectTime)) = unrecorded s ∧
      excess (perform s add (.place fd connectTime)) = excess s +
        if s.slots.persistentFd = -1 ∨ s.slots.nonPersistentFd = -1 then
          if add = false then 1 else 0
        else 0 := by
  have hnew := filled_busy hopen
  rw [perform, placeClient]
  split
  · rename_i hper
    have hheld : held { s.slots with persistentFd := fd } =
        filled fd + filled s.slots.nonPersistentFd + s.slots.nonPersistentQueue.count := rfl
    rw [if_pos (.inl hper)]
    apply ledger_registered fd add
    rw [hheld, held, hper, hnew, filled_free]
    omega
  · rename_i hper
    split
    · rename_i hnon
      have hheld : held { s.slots with
          nonPersistentFd := fd, nonPersistentConnectTime := connectTime } =
        filled s.slots.persistentFd + filled fd + s.slots.nonPersistentQueue.count := rfl
      rw [if_pos (.inr hnon)]
      apply ledger_registered fd add
      rw [hheld, held, hnon, hnew, filled_free]
      omega
    · rename_i hnon
      rw [if_neg fun h => h.elim hper hnon, Int.add_zero]
      split
      · rename_i hroom
        have hheld : held { s.slots with
            nonPersistentQueue := s.slots.nonPersistentQueue.push ⟨fd, connectTime⟩ hroom } =
          filled s.slots.persistentFd + filled s.slots.nonPersistentFd +
            (s.slots.nonPersistentQueue.count + 1) := rfl
        apply ledger_admitted
        rw [hheld, held]
        omega
      · have haccepted : ((s.kernel.accepted + 1 : Nat) : Int) = s.kernel.accepted + 1 := rfl
        constructor
        · change ((s.kernel.accepted + 1 : Nat) : Int) -
            (held s.slots + (s.rejected + 1) + s.report.connectionCount) = unrecorded s
          rw [unrecorded]
          omega
        · change held s.slots - (s.activeClients + 1 - 1) = excess s
          rw [excess]
          omega

/-- A step raises the one quantity where the persistent client leaves or a promotion is
refused, and the other where a stray client is closed or a registration fails. -/
theorem ledger_step {s : State} {i : Input} (hp : Permitted s i) (hnum : Numbered s) :
    unrecorded (step s i) = unrecorded s + (if Unrecorded s i then 1 else 0) ∧
      excess (step s i) = excess s + if Uncounted s i then 1 else 0 := by
  have halike := step_alike s i
  have hcaused := action_caused s i
  have haccepted := (numbers_perform s i.add (action s i)).2
  have hopen : ∀ fd rest, s.pending = fd :: rest → fd ≠ -1 := by
    intro fd rest hpend
    exact ne_sentinel (hnum.pending fd (hpend ▸ List.mem_cons_self))
  rw [alike_unrecorded halike, alike_excess halike]
  cases ha : action s i with
  | quiet =>
    have hrecorded : ¬Unrecorded s i := by simp only [Unrecorded, ha, not_false_eq_true]
    have hcounted : ¬Uncounted s i := by
      simp only [Uncounted, Stray, FailedAdd, ha, or_self, not_false_eq_true]
    rw [if_neg hrecorded, if_neg hcounted]
    exact ⟨(Int.add_zero _).symm, (Int.add_zero _).symm⟩
  | place fd connectTime =>
    obtain ⟨hun, hex⟩ := ledger_place (ne_sentinel (permitted_place hp ha).1) connectTime i.add
    have hrecorded : ¬Unrecorded s i := by simp only [Unrecorded, ha, not_false_eq_true]
    have hcounted : Uncounted s i ↔
        (s.slots.persistentFd = -1 ∨ s.slots.nonPersistentFd = -1) ∧ i.add = false := by
      simp only [Uncounted, Stray, FailedAdd, ha, false_or]
    rw [hun, hex, if_neg hrecorded, Int.add_zero, ← ite_and]
    refine ⟨rfl, ?_⟩
    simp only [hcounted]
  | data fd chunk time endTime =>
    obtain ⟨recorded, hmoves⟩ := moves_data i.add
      (ne_sentinel (hnum.sockets fd (permitted_data hp ha))) chunk time endTime
    have hrecorded : ¬Unrecorded s i := by simp only [Unrecorded, ha, not_false_eq_true]
    have hcounted : ¬Uncounted s i := by
      simp only [Uncounted, Stray, FailedAdd, ha, or_self, not_false_eq_true]
    rw [ha] at haccepted
    rw [hmoves.unrecorded haccepted, hmoves.excess, if_neg hrecorded, if_neg hcounted,
      Int.sub_self]
    exact ⟨rfl, (Int.add_zero _).symm⟩
  | leave time =>
    rw [ha] at hcaused
    obtain ⟨rest, hpend⟩ := hcaused
    have hmoves := moves_leave time (hopen _ rest hpend)
    have hrecorded : Unrecorded s i := by simp only [Unrecorded, ha]
    have hcounted : ¬Uncounted s i := by
      simp only [Uncounted, Stray, FailedAdd, ha, or_self, not_false_eq_true]
    rw [perform, hmoves.unrecorded rfl, hmoves.excess, if_pos hrecorded, if_neg hcounted]
    exact ⟨rfl, (Int.add_zero _).symm⟩
  | finish =>
    rw [ha] at hcaused haccepted
    have hbusy : s.slots.nonPersistentFd ≠ -1 := by
      rcases hcaused with hbusy | ⟨rest, hpend⟩
      · exact hbusy
      · exact hopen _ rest hpend
    have hmoves := (moves_expire hbusy).trans (moves_promote i.add rfl hnum.queue)
    have hrecorded : Unrecorded s i ↔ PromotionRefused (expireInactive s) i.add := by
      simp only [Unrecorded, ha]
      rfl
    have hcounted : ¬Uncounted s i := by
      simp only [Uncounted, Stray, FailedAdd, ha, or_self, not_false_eq_true]
    rw [perform] at haccepted ⊢
    rw [hmoves.unrecorded haccepted, hmoves.excess, if_neg hcounted]
    simp only [hrecorded]
    constructor
    · omega
    · exact (Int.add_zero _).symm
  | stray fd =>
    have hrecorded : ¬Unrecorded s i := by simp only [Unrecorded, ha, not_false_eq_true]
    have hcounted : Uncounted s i := by simp only [Uncounted, Stray, ha, true_or]
    rw [if_neg hrecorded, if_pos hcounted]
    refine ⟨(Int.add_zero _).symm, ?_⟩
    change held s.slots - (s.activeClients - 1) = excess s + 1
    rw [excess]
    omega

/-! ## Whole runs -/

theorem ledger_start {s : State} (h : Initial s) : unrecorded s = 0 ∧ excess s = 0 := by
  obtain ⟨_, _, _, _, _, rfl⟩ := h
  exact ⟨rfl, rfl⟩

/-- Every accepted connection is named by a slot or the queue, or was rejected, or was
finished and counted in connection_count, or left without a record; each once. -/
theorem accepted_accounted_for (x : Run) :
    (x.final.kernel.accepted : Int) = held x.final.slots + x.final.rejected +
      x.final.report.connectionCount + x.times Unrecorded := by
  have htimes := x.eq_add_times (fun s h => numbered_start h)
    (fun s i hp h => numbered_step hp h) (fun s i hp h => (ledger_step hp h).1)
  rw [(ledger_start x.begins).1, unrecorded] at htimes
  omega

/-- active_clients falls behind what the slots and the queue name by one for each stray
client closed and each client whose registration failed. -/
theorem activeClients_behind (x : Run) :
    x.final.activeClients = held x.final.slots - x.times Uncounted := by
  have htimes := x.eq_add_times (fun s h => numbered_start h)
    (fun s i hp h => numbered_step hp h) (fun s i hp h => (ledger_step hp h).2)
  rw [(ledger_start x.begins).2, excess] at htimes
  omega

end ConnectionOrder.ServerEpx3
