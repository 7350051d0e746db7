import ConnectionOrder.ServerEpx3.Runs

/-!
# Where received bytes are counted

A chunk reaches the totals through the slot its descriptor occupies once a
misidentified persistent connection has been demoted. The demotion also adds
the bytes in progress to the non-persistent total without taking them off the
persistent one, and a descriptor that is left without a slot is not counted.
-/

namespace ConnectionOrder.ServerEpx3

open Machine

/-- The lengths of the positive results of recv. -/
def received (s : State) (i : Input) : List Nat :=
  match action s i with
  | .data _ chunk _ _ => [chunk.length]
  | _ => []

/-- The demotion carries no bytes over. A demotion into the queue drops the chunk,
so there the bytes carried over have to be as many as those dropped. -/
def DemotedClean (s : State) (fd : Fd) (chunk : Chunk bufferSize) : Prop :=
  ¬DemotionRejected s ∧
  if s.slots.nonPersistentFd = -1 ∨ fd = s.slots.nonPersistentFd then s.progress.perBytesRead = 0
  else s.progress.perBytesRead = UInt64.ofNat chunk.length

instance (s : State) (fd : Fd) (chunk : Chunk bufferSize) : Decidable (DemotedClean s fd chunk) :=
  inferInstanceAs (Decidable (_ ∧ ite _ _ _))

def Accounted (s : State) (i : Input) : Prop :=
  match action s i with
  | .data fd chunk _ _ =>
    if Misidentified s fd chunk then DemotedClean s fd chunk
    else fd = s.slots.persistentFd ∨ fd = s.slots.nonPersistentFd
  | _ => True

/-- What a chunk adds to all_per_bytes and to all_nonper_bytes. -/
def gain (s : State) (fd : Fd) (chunk : Chunk bufferSize) : UInt64 × UInt64 :=
  if Misidentified s fd chunk then
    if DemotionRejected s then (0, 0)
    else if s.slots.nonPersistentFd = -1 ∨ fd = s.slots.nonPersistentFd then
      (0, s.progress.perBytesRead + UInt64.ofNat chunk.length)
    else (0, s.progress.perBytesRead)
  else if fd = s.slots.persistentFd then (UInt64.ofNat chunk.length, 0)
  else if fd = s.slots.nonPersistentFd then (0, UInt64.ofNat chunk.length)
  else (0, 0)

def Grown (t t' : Totals) (amount : UInt64 × UInt64) : Prop :=
  t'.allPerBytes = t.allPerBytes + amount.1 ∧ t'.allNonperBytes = t.allNonperBytes + amount.2

theorem grown_zero {t t' : Totals} (hper : t'.allPerBytes = t.allPerBytes)
    (hnon : t'.allNonperBytes = t.allNonperBytes) : Grown t t' (0, 0) := by
  rw [Grown, hper, hnon, add_zero, add_zero]
  exact ⟨rfl, rfl⟩

theorem grown_pairPersistent (s : State) : Grown s.totals (pairPersistent s).totals (0, 0) := by
  apply grown_zero <;> unfold pairPersistent <;> split_ifs <;> rfl

theorem grown_pairNonPersistent (s : State) :
    Grown s.totals (pairNonPersistent s).totals (0, 0) := by
  apply grown_zero <;> unfold pairNonPersistent <;> split_ifs <;> rfl

theorem Grown.trans {t t' t'' : Totals} {a b : UInt64 × UInt64} (h : Grown t t' a)
    (h' : Grown t' t'' b) : Grown t t'' (a.1 + b.1, a.2 + b.2) := by
  rw [Grown, h'.1, h'.2, h.1, h.2, add_assoc, add_assoc]
  exact ⟨rfl, rfl⟩

theorem grown_countData (s : State) (fd : Fd) (n : Nat) (time endTime : Timeval) :
    Grown s.totals (countData s fd n time endTime).totals
      (if fd = s.slots.persistentFd then (UInt64.ofNat n, 0)
        else if fd = s.slots.nonPersistentFd then (0, UInt64.ofNat n) else (0, 0)) := by
  rw [countData]
  split
  · have htally : Grown s.totals (tallyPersistent s n time endTime).totals (UInt64.ofNat n, 0) :=
      ⟨rfl, (add_zero _).symm⟩
    have hpair := htally.trans (grown_pairPersistent _)
    rwa [add_zero, add_zero] at hpair
  · split
    · have htally : Grown s.totals (tallyNonPersistent s n time endTime).totals
          (0, UInt64.ofNat n) := ⟨(add_zero _).symm, rfl⟩
      have hpair := htally.trans (grown_pairNonPersistent _)
      rwa [add_zero, add_zero] at hpair
    · exact grown_zero rfl rfl

theorem grown_readData (s : State) {fd : Fd} (hfd : fd ≠ -1) (chunk : Chunk bufferSize)
    (time endTime : Timeval) :
    Grown s.totals (readData s fd chunk time endTime).totals (gain s fd chunk) := by
  rw [readData, gain]
  split
  · rename_i hmis
    split
    · -- A rejected demotion drops the chunk and moves nothing.
      rename_i hrej
      rw [demote, if_neg hrej.1, dif_neg hrej.2]
      exact grown_zero rfl rfl
    · -- The bytes in progress move first, then the chunk meets the new slots.
      rename_i hrej
      have hcount := grown_countData (demote s fd) fd chunk.length time endTime
      cases eq_or_ne s.slots.nonPersistentFd (-1) with
      | inl hfree =>
        have hdemote : Grown s.totals (demote s fd).totals (0, s.progress.perBytesRead) := by
          rw [demote, if_pos hfree]
          exact ⟨(add_zero _).symm, rfl⟩
        have hper : (demote s fd).slots.persistentFd = -1 := by rw [demote, if_pos hfree]
        have hnon : (demote s fd).slots.nonPersistentFd = fd := by
          rw [demote, if_pos hfree]
          exact hmis.1.symm
        rw [hper, hnon, if_neg hfd, if_pos rfl] at hcount
        rw [if_pos (.inl hfree)]
        have hboth := hdemote.trans hcount
        rwa [add_zero] at hboth
      | inr hbusy =>
        have hroom : s.slots.nonPersistentQueue.count < maxNonPersistent :=
          not_not.mp fun hfull => hrej ⟨hbusy, hfull⟩
        have hdemote : Grown s.totals (demote s fd).totals (0, s.progress.perBytesRead) := by
          rw [demote, if_neg hbusy, dif_pos hroom]
          exact ⟨(add_zero _).symm, rfl⟩
        have hper : (demote s fd).slots.persistentFd = -1 := by
          rw [demote, if_neg hbusy, dif_pos hroom]
        have hnon : (demote s fd).slots.nonPersistentFd = s.slots.nonPersistentFd := by
          rw [demote, if_neg hbusy, dif_pos hroom]
        rw [hper, hnon, if_neg hfd] at hcount
        have hboth := hdemote.trans hcount
        split at hboth
        · rename_i hsame
          rw [if_pos (.inr hsame)]
          rwa [add_zero] at hboth
        · rename_i hother
          rw [if_neg (fun h => h.elim hbusy hother)]
          rwa [add_zero, add_zero] at hboth
  · exact grown_countData s fd chunk.length time endTime

def stepGain (s : State) (i : Input) : UInt64 × UInt64 :=
  match action s i with
  | .data fd chunk _ _ => gain s fd chunk
  | _ => (0, 0)

theorem grown_step {s : State} {i : Input} (hp : Permitted s i) (h : SocketsNonneg s) :
    Grown s.totals (step s i).totals (stepGain s i) := by
  obtain ⟨_, _, _, halike⟩ := step_alike s i
  rw [halike]
  rw [stepGain]
  cases ha : action s i with
  | quiet | leave | stray => exact grown_zero rfl rfl
  | data fd chunk time endTime =>
    exact grown_readData s (ne_sentinel_of_open h (permitted_data hp ha)) chunk time endTime
  | place fd connectTime =>
    obtain ⟨_, _, _, _, hshape⟩ := place_shape s i.add fd connectTime
    rw [hshape]
    exact grown_zero rfl rfl
  | finish =>
    obtain ⟨_, _, _, _, _, hshape⟩ := promoteQueued_shape (expireInactive s) i.add
    simp only [perform, hshape]
    exact grown_zero rfl rfl

theorem ofNat_length_ne_zero (chunk : Chunk bufferSize) : UInt64.ofNat chunk.length ≠ 0 :=
  chunk.ofNat_length_ne_zero (by decide)

theorem start_totals (x : Run) : x.start.totals = Totals.zero := by
  obtain ⟨_, _, _, _, _, hstart⟩ := x.begins
  rw [hstart]
  rfl

/-! ## No byte lost, none counted twice -/

theorem gain_misidentified {s : State} {fd : Fd} {chunk : Chunk bufferSize}
    (h : Misidentified s fd chunk) : (gain s fd chunk).1 = 0 ∧
    ((gain s fd chunk).2 = UInt64.ofNat chunk.length ↔ DemotedClean s fd chunk) := by
  rw [gain, if_pos h, DemotedClean]
  cases Decidable.em (DemotionRejected s) with
  | inl hrej => simp [hrej, (ofNat_length_ne_zero chunk).symm]
  | inr hrej =>
    simp only [hrej, if_false, not_false_eq_true, true_and]
    rcases Decidable.em (s.slots.nonPersistentFd = -1 ∨ fd = s.slots.nonPersistentFd)
      with hslot | hslot <;> simp [hslot]

theorem gain_eq_iff (s : State) (i : Input) :
    (stepGain s i).1 + (stepGain s i).2 = UInt64.ofNat (received s i).sum ↔ Accounted s i := by
  rw [stepGain, received, Accounted]
  cases action s i with
  | quiet | leave | stray | place | finish => simp
  | data fd chunk time endTime =>
    have hne := (ofNat_length_ne_zero chunk).symm
    simp only [List.sum_singleton]
    split
    · rename_i hmis
      obtain ⟨hzero, hclean⟩ := gain_misidentified hmis
      rw [hzero, zero_add, hclean]
    · rename_i hmis
      rw [gain, if_neg hmis]
      split
      · rename_i hper
        simp [hper]
      · split
        · rename_i hnon
          simp [hnon]
        · rename_i hper hnon
          simp [hper, hnon, hne]

/-- All received bytes are in the two totals, in 64-bit arithmetic. -/
def Conserved (x : Run) : Prop :=
  x.final.totals.allPerBytes + x.final.totals.allNonperBytes =
    UInt64.ofNat (x.observed received).sum

/-- No received byte is lost or counted twice, in any state of a run, exactly
when every chunk is accounted for. -/
theorem bytes_conserved_iff (x : Run) :
    (∀ n, Conserved (x.upTo n)) ↔ x.EachStep Accounted := by
  apply x.forall_take_iff_eachStep (J := fun is => SocketsNonneg (run step x.start is))
    (P := fun is => (run step x.start is).totals.allPerBytes +
      (run step x.start is).totals.allNonperBytes =
        UInt64.ofNat (collect step received x.start is).sum)
  · refine ⟨socketsNonneg_start x.begins, ?_⟩
    rw [run_nil, start_totals]
    rfl
  · intro is i hp h _ _
    rw [run_snoc]
    exact socketsNonneg_step hp h
  · intro is i hp h hsum
    obtain ⟨hper, hnon⟩ := grown_step hp h
    rw [run_snoc, collect_snoc, List.sum_append, UInt64.ofNat_add, hper, hnon, ← hsum,
      ← gain_eq_iff]
    grind

/-- The second client takes the non-persistent slot before the first one has
shown that it is not persistent; its chunk is read and dropped. -/
def demotionIntoQueue : List Input :=
  [ready [3] 0, accepts 4 true 0, ready [3] 0, accepts 5 true 0, ready [4] 1,
    receives (.data chunkN) true 1]

theorem permitted_demotionIntoQueue : Along step Permitted freshStart demotionIntoQueue := by
  with_unfolding_all decide

def demotionIntoQueueRun : Run :=
  ⟨freshStart, demotionIntoQueue, initial_freshStart, permitted_demotionIntoQueue⟩

theorem bytes_lost_demotionIntoQueue : demotionIntoQueueRun.EachStep AddObeyed ∧
    (demotionIntoQueueRun.observed received).sum = 1 ∧
    demotionIntoQueueRun.final.totals.allPerBytes = 0 ∧
    demotionIntoQueueRun.final.totals.allNonperBytes = 0 ∧
    ¬∀ n, Conserved (demotionIntoQueueRun.upTo n) := by
  refine ⟨(by with_unfolding_all decide : Along step AddObeyed freshStart demotionIntoQueue),
    by with_unfolding_all decide, by with_unfolding_all decide, by with_unfolding_all decide, ?_⟩
  intro h
  have hfinal : Conserved demotionIntoQueueRun := h demotionIntoQueue.length
  exact absurd hfinal (by unfold Conserved; with_unfolding_all decide)

end ConnectionOrder.ServerEpx3
