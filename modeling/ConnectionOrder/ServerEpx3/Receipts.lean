import ConnectionOrder.ServerEpx3.Tallies

/-!
# Where every byte is counted

The two totals are numbers, so the bytes of a chunk are followed beside them. A
chunk is added where it is read, and again when a demotion carries over what
per_bytes_read holds. The totals are what the followed chunks amount to, so a byte
counted twice cannot make up for one that is lost.
-/

namespace ConnectionOrder.ServerEpx3

open Machine

/-- A received chunk: the connection it came from, its length, how often its bytes
have been added to all_per_bytes and to all_nonper_bytes, and whether per_bytes_read
holds them. -/
structure Receipt where
  number : Nat
  length : Nat
  perTimes : Nat
  nonperTimes : Nat
  inProgress : Bool
deriving DecidableEq

namespace Receipt

/-- A demotion adds per_bytes_read to all_nonper_bytes and clears it. -/
def carry (r : Receipt) : Receipt :=
  if r.inProgress then { r with nonperTimes := r.nonperTimes + 1, inProgress := false } else r

def drop (r : Receipt) : Receipt := { r with inProgress := false }

def perBytes (r : Receipt) : Nat := r.perTimes * r.length

def nonperBytes (r : Receipt) : Nat := r.nonperTimes * r.length

def bytesInProgress (r : Receipt) : Nat := if r.inProgress then r.length else 0

theorem perBytes_carry (r : Receipt) : r.carry.perBytes = r.perBytes := by
  rw [carry]
  split <;> rfl

theorem nonperBytes_carry (r : Receipt) :
    r.carry.nonperBytes = r.nonperBytes + r.bytesInProgress := by
  rw [carry, bytesInProgress]
  split
  · exact Nat.succ_mul _ _
  · rfl

theorem bytesInProgress_carry (r : Receipt) : r.carry.bytesInProgress = 0 := by
  rw [carry]
  split
  · rfl
  · rename_i hdone
    exact if_neg hdone

end Receipt

/-- The chunk that is read now, counted for its slot or for none. -/
def receipt (s : State) (fd : Fd) (chunk : Chunk bufferSize) : Receipt where
  number := s.kernel.conn fd
  length := chunk.length
  perTimes := if tallied s fd chunk = some .one then 1 else 0
  nonperTimes := if tallied s fd chunk = some .two then 1 else 0
  inProgress := tallied s fd chunk = some .one

def noteReceipt (rs : List Receipt) (s : State) (i : Input) : List Receipt :=
  match action s i with
  | .data fd chunk _ _ =>
    (if Misidentified s fd chunk ∧ ¬DemotionRejected s then rs.map Receipt.carry else rs) ++
      [receipt s fd chunk]
  | .finish => rs.map Receipt.drop
  | .quiet | .place .. | .leave _ | .stray _ => rs

def receipts (x : Run) : List Receipt := x.tracked noteReceipt []

def source (s : State) (i : Input) : List (Nat × Nat) :=
  match action s i with
  | .data fd chunk _ _ => [(s.kernel.conn fd, chunk.length)]
  | .quiet | .place .. | .leave _ | .finish | .stray _ => []

/-! ## The totals follow the receipts -/

structure Booked (rs : List Receipt) (s : State) : Prop where
  per : s.totals.allPerBytes = UInt64.ofNat (rs.map Receipt.perBytes).sum
  nonper : s.totals.allNonperBytes = UInt64.ofNat (rs.map Receipt.nonperBytes).sum
  progress : s.progress.perBytesRead = UInt64.ofNat (rs.map Receipt.bytesInProgress).sum

theorem sum_perBytes_carry (rs : List Receipt) :
    ((rs.map Receipt.carry).map Receipt.perBytes).sum = (rs.map Receipt.perBytes).sum := by
  rw [List.map_map]
  exact congrArg List.sum (List.map_congr_left fun r _ => r.perBytes_carry)

theorem sum_nonperBytes_carry (rs : List Receipt) :
    ((rs.map Receipt.carry).map Receipt.nonperBytes).sum =
      (rs.map Receipt.nonperBytes).sum + (rs.map Receipt.bytesInProgress).sum := by
  rw [List.map_map, ← List.sum_map_add]
  exact congrArg List.sum (List.map_congr_left fun r _ => r.nonperBytes_carry)

theorem sum_bytesInProgress_eq_zero {rs : List Receipt}
    (h : ∀ r ∈ rs, r.bytesInProgress = 0) : (rs.map Receipt.bytesInProgress).sum = 0 := by
  apply List.sum_eq_zero
  intro n hn
  obtain ⟨r, hr, rfl⟩ := List.mem_map.mp hn
  exact h r hr

theorem sum_bytesInProgress_carry (rs : List Receipt) :
    ((rs.map Receipt.carry).map Receipt.bytesInProgress).sum = 0 := by
  apply sum_bytesInProgress_eq_zero
  intro r hr
  obtain ⟨old, _, rfl⟩ := List.mem_map.mp hr
  exact old.bytesInProgress_carry

variable {rs : List Receipt} {s : State}

/-- A demotion carries the bytes in progress over and clears them, unless it is rejected. -/
theorem Booked.reassigned (h : Booked rs s) (fd : Fd) (chunk : Chunk bufferSize) :
    Booked (if Misidentified s fd chunk ∧ ¬DemotionRejected s then rs.map Receipt.carry else rs)
      (reassigned s fd chunk) := by
  have hcarried : Booked (rs.map Receipt.carry) { s with
      progress := { s.progress with perBytesRead := 0 }
      totals := { s.totals with
        allNonperBytes := s.totals.allNonperBytes + s.progress.perBytesRead } } := by
    constructor
    · rw [sum_perBytes_carry]
      exact h.per
    · rw [sum_nonperBytes_carry, UInt64.ofNat_add, ← h.nonper, ← h.progress]
    · rw [sum_bytesInProgress_carry]
      rfl
  rw [ServerEpx3.reassigned]
  cases Decidable.em (Misidentified s fd chunk) with
  | inr hnot =>
    rw [if_neg hnot, if_neg fun hmis => hnot hmis.1]
    exact h
  | inl hmis =>
    rw [if_pos hmis]
    cases Decidable.em (DemotionRejected s) with
    | inl hrej =>
      rw [if_neg fun hmoved => hmoved.2 hrej, demote, if_neg hrej.1, dif_neg hrej.2]
      exact ⟨h.per, h.nonper, h.progress⟩
    | inr hrej =>
      rw [if_pos ⟨hmis, hrej⟩, demote]
      split_ifs with hfree hroom
      · exact ⟨hcarried.per, hcarried.nonper, hcarried.progress⟩
      · exact ⟨hcarried.per, hcarried.nonper, hcarried.progress⟩
      · exact absurd ⟨hfree, hroom⟩ hrej

theorem booked_data (h : Booked rs s) {fd : Fd} (hfd : fd ≠ -1) (chunk : Chunk bufferSize)
    (time endTime : Timeval) :
    Booked
      ((if Misidentified s fd chunk ∧ ¬DemotionRejected s then rs.map Receipt.carry else rs) ++
        [receipt s fd chunk])
      (readData s fd chunk time endTime) := by
  have hmoved := h.reassigned fd chunk
  cases htally : tallied s fd chunk with
  | none =>
    rw [readData_none hfd htally]
    constructor
    · simp [hmoved.per, receipt, htally, Receipt.perBytes]
    · simp [hmoved.nonper, receipt, htally, Receipt.nonperBytes]
    · simp [hmoved.progress, receipt, htally, Receipt.bytesInProgress]
  | some side =>
    cases side with
    | one =>
      obtain ⟨hmis, _, hread⟩ := readData_one htally time endTime
      obtain ⟨_, _, _, _, _, hpair⟩ :=
        pairPersistent_shape (tallyPersistent s chunk.length time endTime)
      rw [reassigned, if_neg hmis] at hmoved
      rw [hread, hpair]
      constructor
      · simp [tallyPersistent, hmoved.per, receipt, htally, Receipt.perBytes]
      · simp [tallyPersistent, hmoved.nonper, receipt, htally, Receipt.nonperBytes]
      · simp [tallyPersistent, hmoved.progress, receipt, htally, Receipt.bytesInProgress]
    | two =>
      obtain ⟨_, _, _, _, _, hpair⟩ := pairNonPersistent_shape
        (tallyNonPersistent (reassigned s fd chunk) chunk.length time endTime)
      rw [readData_two hfd htally, hpair]
      constructor
      · simp [tallyNonPersistent, hmoved.per, receipt, htally, Receipt.perBytes]
      · simp [tallyNonPersistent, hmoved.nonper, receipt, htally, Receipt.nonperBytes]
      · simp [tallyNonPersistent, hmoved.progress, receipt, htally, Receipt.bytesInProgress]

theorem booked_finish (h : Booked rs s) (add : Bool) :
    Booked (rs.map Receipt.drop) (perform s add .finish) := by
  obtain ⟨_, _, _, _, _, hshape⟩ := promoteQueued_shape (expireInactive s) add
  rw [perform, hshape]
  constructor
  · rw [List.map_map]
    exact h.per
  · rw [List.map_map]
    exact h.nonper
  · rw [sum_bytesInProgress_eq_zero]
    · rfl
    · intro r hr
      obtain ⟨old, _, rfl⟩ := List.mem_map.mp hr
      rfl

theorem booked_step {i : Input} (hp : Permitted s i) (hpos : SocketsNonneg s)
    (h : Booked rs s) : Booked (noteReceipt rs s i) (step s i) := by
  have hperform : Booked (noteReceipt rs s i) (perform s i.add (action s i)) := by
    rw [noteReceipt]
    cases ha : action s i with
    | quiet | leave | stray => exact ⟨h.per, h.nonper, h.progress⟩
    | place fd connectTime =>
      obtain ⟨_, _, _, _, hshape⟩ := place_shape s i.add fd connectTime
      rw [hshape]
      exact ⟨h.per, h.nonper, h.progress⟩
    | data fd chunk time endTime =>
      exact booked_data h (ne_sentinel_of_open hpos (permitted_data hp ha)) chunk time endTime
    | finish => exact booked_finish h i.add
  obtain ⟨_, _, _, halike⟩ := step_alike s i
  rw [halike]
  exact ⟨hperform.per, hperform.nonper, hperform.progress⟩

theorem booked (x : Run) (n : Nat) : Booked (receipts (x.upTo n)) (x.stateAt n) := by
  have hstart : Booked [] x.start := by
    obtain ⟨_, _, _, _, _, hstart⟩ := x.begins
    rw [hstart]
    exact ⟨rfl, rfl, rfl⟩
  have hboth := x.track_invariant (f := noteReceipt) (R := fun _ _ => True)
    (Q := fun rs s => SocketsNonneg s ∧ Booked rs s) ⟨socketsNonneg_start x.begins, hstart⟩
    (fun _ _ _ hp _ h => ⟨socketsNonneg_step hp h.1, booked_step hp h.1 h.2⟩)
    (x.eachStep_iff.mpr fun _ _ => trivial) n
  exact hboth.2

def Receipt.source (r : Receipt) : Nat × Nat := (r.number, r.length)

theorem source_carry (r : Receipt) : r.carry.source = r.source := by
  rw [Receipt.carry]
  split <;> rfl

theorem sources_note (rs : List Receipt) (s : State) (i : Input) :
    (noteReceipt rs s i).map Receipt.source = rs.map Receipt.source ++ source s i := by
  rw [noteReceipt, source]
  cases action s i with
  | quiet | leave | stray | place => exact (List.append_nil _).symm
  | finish =>
    rw [List.map_map, List.append_nil]
    rfl
  | data fd chunk time endTime =>
    dsimp only
    rw [List.map_append]
    split
    · have hsame : (rs.map Receipt.carry).map Receipt.source = rs.map Receipt.source := by
        rw [List.map_map]
        exact List.map_congr_left fun r _ => source_carry r
      rw [hsame]
      rfl
    · rfl

/-- Every chunk that is received has one receipt. -/
theorem receipts_complete (x : Run) : (receipts x).map Receipt.source = x.observed source := by
  apply x.history_induction (P := fun is =>
    (track step noteReceipt [] x.start is).map Receipt.source = collect step source x.start is)
  · rfl
  · intro is i _ _ ih
    rw [track_snoc, collect_snoc, sources_note, ih]

/-! ## Classification by what the clients send -/

/-- The client with number p sends P only, every other client N only. -/
def Labelled (p : Nat) (s : State) (i : Input) : Prop :=
  match action s i with
  | .data fd chunk _ _ =>
    ∀ b ∈ chunk.bytes, b = if s.kernel.conn fd = p then persistentByte else 78
  | _ => True

instance (p : Nat) (s : State) (i : Input) : Decidable (Labelled p s i) := by
  unfold Labelled
  match action s i with
  | .data _ chunk _ _ => exact List.decidableBAll (fun b => b = _) chunk.bytes
  | .quiet | .place .. | .leave _ | .finish | .stray _ => infer_instance

theorem head_of_labelled {p : Nat} {s : State} {i : Input} {fd : Fd} {chunk : Chunk bufferSize}
    {time endTime : Timeval} (h : Labelled p s i) (ha : action s i = .data fd chunk time endTime) :
    chunk.head = persistentByte ↔ s.kernel.conn fd = p := by
  simp only [Labelled, ha] at h
  have hhead : chunk.head = _ := h _ (List.head_mem chunk.nonempty)
  rw [hhead]
  split
  · rename_i hp
    simp [hp]
  · rename_i hp
    simp [hp, persistentByte]

/-- The bytes from the client with number p are in all_per_bytes, once, and not in
all_nonper_bytes. For the bytes from any other client it is the other way round. -/
def Receipt.Classified (p : Nat) (r : Receipt) : Prop :=
  if r.number = p then r.perTimes = 1 ∧ r.nonperTimes = 0
  else r.perTimes = 0 ∧ r.nonperTimes = 1

instance (p : Nat) (r : Receipt) : Decidable (r.Classified p) :=
  inferInstanceAs (Decidable (ite _ _ _))

def Separated (p : Nat) (rs : List Receipt) : Prop := ∀ r ∈ rs, r.Classified p

instance (p : Nat) (rs : List Receipt) : Decidable (Separated p rs) :=
  inferInstanceAs (Decidable (∀ r ∈ rs, _))

/-- No chunk that was read on the persistent slot waits in per_bytes_read. -/
def NothingCarried (rs : List Receipt) : Prop := ∀ r ∈ rs, r.inProgress = false

instance (rs : List Receipt) : Decidable (NothingCarried rs) :=
  inferInstanceAs (Decidable (∀ r ∈ rs, _))

/-- P arrives on the persistent slot. Anything else arrives on the non-persistent
slot alone, or it demotes its connection into that slot and carries nothing over. -/
def OwnSlot (rs : List Receipt) (s : State) (i : Input) : Prop :=
  match action s i with
  | .data fd chunk _ _ =>
    if chunk.head = persistentByte then fd = s.slots.persistentFd
    else if fd = s.slots.persistentFd then
      NothingCarried rs ∧ ¬DemotionRejected s ∧
        (s.slots.nonPersistentFd = -1 ∨ fd = s.slots.nonPersistentFd)
    else fd = s.slots.nonPersistentFd
  | .quiet | .place .. | .leave _ | .finish | .stray _ => True

instance (rs : List Receipt) (s : State) (i : Input) : Decidable (OwnSlot rs s i) := by
  unfold OwnSlot
  match action s i with
  | .data .. => infer_instance
  | .quiet | .place .. | .leave _ | .finish | .stray _ => infer_instance

theorem separated_append {p : Nat} {rs : List Receipt} {r : Receipt} :
    Separated p (rs ++ [r]) ↔ Separated p rs ∧ r.Classified p := by
  simp only [Separated, List.forall_mem_append, List.forall_mem_singleton]

theorem classified_receipt {p : Nat} {s : State} {fd : Fd} {chunk : Chunk bufferSize} :
    (receipt s fd chunk).Classified p ↔
      tallied s fd chunk = if s.kernel.conn fd = p then some .one else some .two := by
  rw [Receipt.Classified, receipt]
  dsimp only
  split <;> rcases tallied s fd chunk with _ | _ | _ <;> simp

/-- What is carried over has been counted for the persistent client, or as often as it
should for another one. -/
theorem separated_carry {p : Nat} {rs : List Receipt} (h : Separated p rs) :
    Separated p (rs.map Receipt.carry) ↔ NothingCarried rs := by
  have hone : ∀ r : Receipt, r.Classified p →
      (r.carry.Classified p ↔ r.inProgress = false) := by
    intro r hr
    unfold Receipt.Classified Receipt.carry at *
    cases r.inProgress <;> split at hr <;> simp_all
  rw [Separated, List.forall_mem_map]
  exact forall₂_congr fun r hr => hone r (h r hr)

theorem separated_drop {p : Nat} {rs : List Receipt} :
    Separated p (rs.map Receipt.drop) ↔ Separated p rs := by
  rw [Separated, List.forall_mem_map]
  exact Iff.rfl

/-- A step classifies the chunk it reads, and undoes no earlier one, exactly when the
chunk meets its own slot. -/
theorem separated_note {p : Nat} {rs : List Receipt} {s : State} {i : Input}
    (hlabel : Labelled p s i) (h : Separated p rs) :
    Separated p (noteReceipt rs s i) ↔ OwnSlot rs s i := by
  rw [noteReceipt, OwnSlot]
  cases ha : action s i with
  | quiet | leave | stray | place => exact iff_of_true h trivial
  | finish => exact iff_of_true (separated_drop.mpr h) trivial
  | data fd chunk time endTime =>
    have hhead := head_of_labelled hlabel ha
    simp only [separated_append, classified_receipt, ← hhead]
    cases Decidable.em (chunk.head = persistentByte) with
    | inl hp =>
      have hmis : ¬Misidentified s fd chunk := fun hmis => hmis.2 hp
      rw [if_pos hp, if_pos hp, if_neg fun hmoved => hmis hmoved.1, tallied, if_neg hmis]
      split_ifs with hper hnon <;> simp [h, hper]
    | inr hn =>
      rw [if_neg hn, if_neg hn, tallied]
      cases Decidable.em (fd = s.slots.persistentFd) with
      | inl hper =>
        have hmis : Misidentified s fd chunk := ⟨hper, hn⟩
        rw [if_pos hmis, if_pos hper]
        cases Decidable.em (DemotionRejected s) with
        | inl hrej => simp [hrej]
        | inr hrej =>
          rw [if_pos ⟨hmis, hrej⟩, if_neg hrej, separated_carry h]
          split_ifs with hslot <;> simp [hslot, hrej]
      | inr hper =>
        have hmis : ¬Misidentified s fd chunk := fun hmis => hper hmis.1
        rw [if_neg hmis, if_neg hper, if_neg fun hmoved => hmis hmoved.1, if_neg hper]
        split_ifs with hnon <;> simp [h, hnon]

/-- With one client that sends P and others that send N, the receipts account for the two
totals, and every byte is in the total of its client alone, in every state of a run,
exactly when every chunk meets its own slot. -/
theorem separated_iff (p : Nat) (x : Run) (hlabel : x.EachStep (Labelled p)) :
    (∀ n, (receipts (x.upTo n)).map Receipt.source = (x.upTo n).observed source ∧
      Booked (receipts (x.upTo n)) (x.stateAt n)) ∧
    ((∀ n, Separated p (receipts (x.upTo n))) ↔
      (x.withHistory noteReceipt []).EachStep fun q i => OwnSlot q.1 q.2 i) := by
  refine ⟨fun n => ⟨receipts_complete (x.upTo n), booked x n⟩, ?_⟩
  have hlabelled : (x.withHistory noteReceipt []).EachStep fun q i => Labelled p q.2 i :=
    (along_withHistory noteReceipt [] x.start x.inputs).mpr hlabel
  have hall := ((x.withHistory noteReceipt []).restrict hlabelled).always_iff_eachStep
    (J := fun _ => True) (P := fun q => Separated p q.1)
    (R := fun q i => OwnSlot q.1 q.2 i) ?_ (fun _ _ _ _ _ _ => trivial)
    (fun q i hp _ h => separated_note hp.2 h)
  · refine Iff.trans (forall_congr' fun n => ?_) hall
    have hstate : ((x.withHistory noteReceipt []).restrict hlabelled).stateAt n =
        (x.withHistory noteReceipt []).stateAt n := rfl
    rw [hstate, Execution.withHistory_stateAt]
    rfl
  · intro q hq
    rw [hq.1]
    exact ⟨trivial, fun _ hr => absurd hr List.not_mem_nil⟩

def persistentFirst : List Input :=
  [ready [3] 0, accepts 4 true 0, ready [3] 0, accepts 5 true 0, ready [4, 5] 1,
    receives (.data chunkP) true 1, receives (.data chunkN) true 1]

theorem permitted_persistentFirst : Along step Permitted freshStart persistentFirst := by
  with_unfolding_all decide

def persistentFirstRun : Run :=
  ⟨freshStart, persistentFirst, initial_freshStart, permitted_persistentFirst⟩

theorem separated_persistentFirst : (∀ n, Separated 1 (receipts (persistentFirstRun.upTo n))) ∧
    receipts persistentFirstRun = [⟨1, 1, 1, 0, true⟩, ⟨2, 1, 0, 1, false⟩] ∧
    persistentFirstRun.final.totals.allPerBytes = 1 ∧
    persistentFirstRun.final.totals.allNonperBytes = 1 := by
  refine ⟨?_, by with_unfolding_all decide, by with_unfolding_all decide,
    by with_unfolding_all decide⟩
  apply (separated_iff 1 persistentFirstRun _).2.mpr
  · exact (by with_unfolding_all decide : Along (withHistory step noteReceipt)
      (fun q i => OwnSlot q.1 q.2 i) ([], freshStart) persistentFirst)
  · exact (by with_unfolding_all decide : Along step (Labelled 1) freshStart persistentFirst)

def persistentSecond : List Input :=
  [ready [3] 0, accepts 4 true 0, ready [3] 0, accepts 5 true 0, ready [5] 1,
    receives (.data chunkP) true 1]

theorem permitted_persistentSecond : Along step Permitted freshStart persistentSecond := by
  with_unfolding_all decide

def persistentSecondRun : Run :=
  ⟨freshStart, persistentSecond, initial_freshStart, permitted_persistentSecond⟩

theorem misclassified_persistentSecond : persistentSecondRun.EachStep AddObeyed ∧
    persistentSecondRun.EachStep (Labelled 2) ∧ persistentSecondRun.final.rejected = 0 ∧
    receipts persistentSecondRun = [⟨2, 1, 0, 1, false⟩] ∧
    persistentSecondRun.final.totals.allPerBytes = 0 ∧
    persistentSecondRun.final.totals.allNonperBytes = 1 ∧
    ¬∀ n, Separated 2 (receipts (persistentSecondRun.upTo n)) := by
  refine ⟨(by with_unfolding_all decide : Along step AddObeyed freshStart persistentSecond),
    (by with_unfolding_all decide : Along step (Labelled 2) freshStart persistentSecond),
    by with_unfolding_all decide, by with_unfolding_all decide, by with_unfolding_all decide,
    by with_unfolding_all decide, ?_⟩
  intro h
  have hfinal : Separated 2 (receipts persistentSecondRun) := h persistentSecond.length
  exact absurd hfinal (by with_unfolding_all decide)

end ConnectionOrder.ServerEpx3
