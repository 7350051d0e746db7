import ConnectionOrder.ServerEpx3.Summaries

/-!
# Interval counters and overall counters

An event is counted twice, for the connection in progress and overall. Finishing
a connection moves its counters to temp_stats, a flush moves those to a slot;
neither changes what all the places together hold.
-/

namespace ConnectionOrder.ServerEpx3

open Machine

/-- The sum over the flushed slots and temp_stats. -/
def Report.recorded (r : Report) : Sums :=
  ((List.range r.statsCount).map fun i => (r.statsArray i).toSums).sum + r.tempStats.toSums

structure CountersAgree (s : State) : Prop where
  persistent : s.report.recorded.persistentCount + s.progress.persistentCount =
    s.totals.allPersistentCount
  nonPersistent : s.report.recorded.nonPersistentCount + s.progress.nonPersistentCount =
    s.totals.allNonPersistentCount
  both : s.report.recorded.totalWhenBothPresent + UInt64.ofInt s.progress.both = s.totals.allBoth
  onlyPersistent : s.report.recorded.onlyPersistentCount +
    (s.progress.onepertotalCount - UInt64.ofInt s.progress.both) =
      s.totals.allOnlyPersistentCount - s.totals.allBoth
  onlyNonPersistent : s.report.recorded.onlyNonPersistentCount +
    (s.progress.onenonpertotalCount - UInt64.ofInt s.progress.both) =
      s.totals.allOnlyNonPersistentCount - s.totals.allBoth
  pairs : s.totals.allBoth = s.totals.allPersistentCount + s.totals.allNonPersistentCount

theorem recorded_record (r : Report) (p : Progress) (duration : ℚ) :
    (r.record p duration).recorded = r.recorded + contribution p duration := by
  have hsum := Batches.sum_push summaryInterval statsCapacity r.batches
    (contribution p duration)
  rw [← batches_record] at hsum
  exact hsum

theorem CountersAgree.of_eq {s s' : State} (h : CountersAgree s) (hreport : s'.report = s.report)
    (hprogress : ∃ perBytes nonperBytes perPackets nonperPackets, s'.progress = { s.progress with
      perBytesRead := perBytes
      nonperBytesRead := nonperBytes
      perPackets := perPackets
      nonperPackets := nonperPackets })
    (htotals : ∃ perBytes nonperBytes perPackets nonPackets duration, s'.totals = { s.totals with
      allPerBytes := perBytes
      allNonperBytes := nonperBytes
      allPerpackets := perPackets
      allNonpacktes := nonPackets
      conn2Duration := duration }) : CountersAgree s' := by
  obtain ⟨_, _, _, _, hprogress⟩ := hprogress
  obtain ⟨_, _, _, _, _, htotals⟩ := htotals
  constructor <;> rw [htotals] <;> (try rw [hreport, hprogress])
  · exact h.persistent
  · exact h.nonPersistent
  · exact h.both
  · exact h.onlyPersistent
  · exact h.onlyNonPersistent
  · exact h.pairs

theorem CountersAgree.tallyPersistent {s : State} (h : CountersAgree s) (n : Nat)
    (time endTime : Timeval) : CountersAgree (tallyPersistent s n time endTime) where
  persistent := h.persistent
  nonPersistent := h.nonPersistent
  both := h.both
  onlyPersistent := by
    have hold := h.onlyPersistent
    change s.report.recorded.onlyPersistentCount +
      (s.progress.onepertotalCount + 1 - UInt64.ofInt s.progress.both) =
        s.totals.allOnlyPersistentCount + 1 - s.totals.allBoth
    grind
  onlyNonPersistent := h.onlyNonPersistent
  pairs := h.pairs

theorem CountersAgree.tallyNonPersistent {s : State} (h : CountersAgree s) (n : Nat)
    (time endTime : Timeval) : CountersAgree (tallyNonPersistent s n time endTime) where
  persistent := h.persistent
  nonPersistent := h.nonPersistent
  both := h.both
  onlyPersistent := h.onlyPersistent
  onlyNonPersistent := by
    have hold := h.onlyNonPersistent
    change s.report.recorded.onlyNonPersistentCount +
      (s.progress.onenonpertotalCount + 1 - UInt64.ofInt s.progress.both) =
        s.totals.allOnlyNonPersistentCount + 1 - s.totals.allBoth
    grind
  pairs := h.pairs

/-- A pair is counted in both at the same time as on the side that came first. -/
theorem CountersAgree.pairPersistent {s : State} (h : CountersAgree s) :
    CountersAgree (pairPersistent s) := by
  obtain ⟨hper, hnon, hboth, honlyPer, honlyNon, hpairs⟩ := h
  rw [ServerEpx3.pairPersistent]
  split
  · split
    · exact ⟨hper, hnon, hboth, honlyPer, honlyNon, hpairs⟩
    · split
      · constructor <;> dsimp only <;> (try rw [ofInt_succ]) <;> grind
      · exact ⟨hper, hnon, hboth, honlyPer, honlyNon, hpairs⟩
  · exact ⟨hper, hnon, hboth, honlyPer, honlyNon, hpairs⟩

theorem CountersAgree.pairNonPersistent {s : State} (h : CountersAgree s) :
    CountersAgree (pairNonPersistent s) := by
  obtain ⟨hper, hnon, hboth, honlyPer, honlyNon, hpairs⟩ := h
  rw [ServerEpx3.pairNonPersistent]
  split
  · split
    · exact ⟨hper, hnon, hboth, honlyPer, honlyNon, hpairs⟩
    · split
      · constructor <;> dsimp only <;> (try rw [ofInt_succ]) <;> grind
      · exact ⟨hper, hnon, hboth, honlyPer, honlyNon, hpairs⟩
  · exact ⟨hper, hnon, hboth, honlyPer, honlyNon, hpairs⟩

theorem CountersAgree.countData {s : State} (h : CountersAgree s) (fd : Fd) (n : Nat)
    (time endTime : Timeval) : CountersAgree (countData s fd n time endTime) := by
  rw [ServerEpx3.countData]
  split
  · exact (h.tallyPersistent n time endTime).pairPersistent
  · split
    · exact (h.tallyNonPersistent n time endTime).pairNonPersistent
    · exact h

theorem CountersAgree.demote {s : State} (h : CountersAgree s) (fd : Fd) :
    CountersAgree (demote s fd) := by
  obtain ⟨_, _, _, _, _, _, _, _, _, _, _, hshape⟩ := demote_shape s fd
  rw [hshape]
  exact h.of_eq rfl ⟨_, _, _, _, rfl⟩ ⟨_, _, _, _, _, rfl⟩

theorem CountersAgree.readData {s : State} (h : CountersAgree s) (fd : Fd)
    (chunk : Chunk bufferSize) (time endTime : Timeval) :
    CountersAgree (readData s fd chunk time endTime) := by
  rw [ServerEpx3.readData]
  split
  · split
    · exact h.demote fd
    · exact (h.demote fd).countData fd chunk.length time endTime
  · exact h.countData fd chunk.length time endTime

theorem CountersAgree.expireInactive {s : State} (h : CountersAgree s) :
    CountersAgree (expireInactive s) := by
  have hrecorded : (ServerEpx3.expireInactive s).report.recorded =
      s.report.recorded + contribution s.progress (oneconn2Duration s) := recorded_record _ _ _
  have hzero : UInt64.ofInt 0 = 0 := by decide
  have honly : (0 : UInt64) - UInt64.ofInt 0 = 0 := by decide
  constructor
  · rw [hrecorded]
    exact (add_zero _).trans h.persistent
  · rw [hrecorded]
    exact (add_zero _).trans h.nonPersistent
  · rw [hrecorded]
    exact (congrArg _ hzero).trans ((add_zero _).trans h.both)
  · rw [hrecorded]
    exact (congrArg _ honly).trans ((add_zero _).trans h.onlyPersistent)
  · rw [hrecorded]
    exact (congrArg _ honly).trans ((add_zero _).trans h.onlyNonPersistent)
  · exact h.pairs

theorem countersAgree_perform {s : State} (h : CountersAgree s) (add : Bool) (a : Action) :
    CountersAgree (perform s add a) := by
  cases a with
  | quiet | leave | stray => exact h.of_eq rfl ⟨_, _, _, _, rfl⟩ ⟨_, _, _, _, _, rfl⟩
  | place fd connectTime =>
    obtain ⟨_, _, _, _, hshape⟩ := place_shape s add fd connectTime
    rw [hshape]
    exact h.of_eq rfl ⟨_, _, _, _, rfl⟩ ⟨_, _, _, _, _, rfl⟩
  | data fd chunk time endTime => exact h.readData fd chunk time endTime
  | finish =>
    obtain ⟨_, _, _, _, _, hshape⟩ := promoteQueued_shape (expireInactive s) add
    rw [perform, hshape]
    exact h.expireInactive.of_eq rfl ⟨_, _, _, _, rfl⟩ ⟨_, _, _, _, _, rfl⟩

/-- In every state of a run, what the flushed slots, temp_stats and the connection
in progress hold adds up to the overall counters. -/
theorem counters_agree (x : Run) : x.Always CountersAgree := by
  apply x.invariant (P := CountersAgree)
  · rintro s ⟨_, _, _, _, _, rfl⟩
    have honly : (0 : UInt64) + (0 - UInt64.ofInt 0) = 0 - 0 := by decide
    exact ⟨rfl, rfl, rfl, honly, honly, rfl⟩
  · intro s i _ h
    obtain ⟨_, _, _, halike⟩ := step_alike s i
    rw [halike]
    exact (countersAgree_perform h i.add (action s i)).of_eq rfl ⟨_, _, _, _, rfl⟩
      ⟨_, _, _, _, _, rfl⟩

end ConnectionOrder.ServerEpx3
