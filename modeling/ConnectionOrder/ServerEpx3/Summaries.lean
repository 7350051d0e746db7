import ConnectionOrder.Batches
import ConnectionOrder.ServerEpx3.Runs

/-!
# The summaries of server_epx3

The report sums a stream of finished connections in batches of SUMMARY_INTERVAL.
Both places that finish a connection push it into the batches, and what is saved
after the loop is the incomplete batch.
-/

namespace ConnectionOrder.ServerEpx3

open Machine

def Report.batches (r : Report) : Batches Sums where
  slots i := (r.statsArray i).toSums
  count := r.statsCount
  total := r.connectionCount
  rest := r.tempStats.toSums

/-- A residual interval in which no pair was counted is not saved. -/
def Report.keepsRest (r : Report) : Bool := 0 < r.tempStats.totalWhenBothPresent

theorem ofInt_succ (n : Int) : UInt64.ofInt (n + 1) = UInt64.ofInt n + 1 := by
  rw [UInt64.ofInt_add]
  rfl

theorem ofInt_natCast (n : Nat) : UInt64.ofInt n = UInt64.ofNat n := by
  induction n with
  | zero => rfl
  | succ n ih =>
    rw [Int.natCast_succ, ofInt_succ, ih]
    exact (UInt64.ofNat_add n 1).symm

theorem toSums_update (stats : Nat → ConnectionStats) (n : Nat) (v : ConnectionStats) :
    (fun i => (Function.update stats n v i).toSums) =
      Function.update (fun i => (stats i).toSums) n v.toSums := by
  funext i
  exact Function.apply_update (fun _ => ConnectionStats.toSums) stats n v i

theorem batches_record (r : Report) (p : Progress) (duration : ℚ) :
    (r.record p duration).batches =
      r.batches.push summaryInterval statsCapacity (contribution p duration) := by
  rw [Report.record]
  split
  · rename_i hflush
    refine Eq.trans ?_ (if_pos hflush).symm
    rw [Report.batches, toSums_update]
    rfl
  · rename_i hkeep
    exact (if_neg hkeep).symm

theorem batches_saveRemaining (r : Report) :
    r.saveRemaining.batches = r.batches.save summaryInterval statsCapacity r.keepsRest := by
  have hkeep : r.keepsRest = true ↔ 0 < r.tempStats.totalWhenBothPresent := decide_eq_true_iff
  rw [Report.saveRemaining, Batches.save]
  simp only [hkeep]
  split
  · rename_i hsave
    refine Eq.trans ?_ (if_pos hsave).symm
    rw [Report.batches, toSums_update]
    rfl
  · rename_i hskip
    exact (if_neg hskip).symm

theorem record_outside (r : Report) (p : Progress) (duration : ℚ) {i : Nat}
    (hi : statsCapacity ≤ i) : (r.record p duration).statsArray i = r.statsArray i := by
  rw [Report.record]
  split
  · rename_i hflush
    exact Function.update_of_ne (by omega) _ _
  · rfl

theorem saveRemaining_outside (r : Report) {i : Nat} (hi : statsCapacity ≤ i) :
    r.saveRemaining.statsArray i = r.statsArray i := by
  rw [Report.saveRemaining]
  split
  · rename_i hsave
    exact Function.update_of_ne (by omega) _ _
  · rfl

theorem connectionCount_saveRemaining (r : Report) :
    r.saveRemaining.connectionCount = r.connectionCount := by
  rw [Report.saveRemaining]
  split <;> rfl

def finished (s : State) (i : Input) : List Sums :=
  match action s i with
  | .finish => [contribution s.progress (oneconn2Duration s)]
  | _ => []

theorem report_perform (s : State) (add : Bool) (a : Action) : (perform s add a).report =
    match a with
    | .finish => s.report.record s.progress (oneconn2Duration s)
    | _ => s.report := by
  cases a with
  | quiet | leave | stray => rfl
  | place fd connectTime =>
    obtain ⟨_, _, _, _, hshape⟩ := place_shape s add fd connectTime
    rw [hshape]
  | finish =>
    obtain ⟨_, _, _, _, _, hshape⟩ := promoteQueued_shape (expireInactive s) add
    rw [perform, hshape]
    rfl
  | data fd chunk time endTime =>
    obtain ⟨_, _, _, _, _, _, _, _, hshape⟩ := data_shape s add fd chunk time endTime
    rw [hshape]

theorem report_step (s : State) (i : Input) : (step s i).report =
    match action s i with
    | .finish => s.report.record s.progress (oneconn2Duration s)
    | _ => s.report := by
  obtain ⟨_, _, _, halike⟩ := step_alike s i
  rw [halike]
  exact report_perform s i.add (action s i)

theorem report_sums (x : Run) : Batches.Sums summaryInterval statsCapacity
    x.start.report.batches.slots (x.observed finished) x.final.report.batches := by
  apply x.history_induction (P := fun is => Batches.Sums summaryInterval statsCapacity
    x.start.report.batches.slots (collect step finished x.start is)
    (run step x.start is).report.batches)
  · obtain ⟨_, _, _, _, _, hstart⟩ := x.begins
    rw [run_nil, hstart]
    exact Batches.sums_empty _
  · intro is i _ _ ih
    rw [collect_snoc, run_snoc, report_step, finished]
    cases action (run step x.start is) i with
    | quiet | leave | stray | place | data => rwa [List.append_nil]
    | finish =>
      dsimp only
      rw [batches_record]
      exact ih.push _

theorem outside_always (x : Run) {i : Nat} (hi : statsCapacity ≤ i) :
    x.final.report.statsArray i = x.start.report.statsArray i := by
  apply x.history_induction (P := fun is =>
    (run step x.start is).report.statsArray i = x.start.report.statsArray i)
  · rfl
  · intro is input _ _ ih
    rw [run_snoc, report_step]
    cases action (run step x.start is) input with
    | quiet | leave | stray | place | data => exact ih
    | finish => exact (record_outside _ _ _ hi).trans ih

theorem endConn_eq (r : Report) (i : Nat) :
    endConn r i = Batches.last summaryInterval i r.connectionCount := by
  rw [endConn, Batches.last]
  split <;> omega

theorem summaryInterval_pos : 0 < summaryInterval := by decide

def summarized (x : Run) (i : Nat) : List Sums :=
  Batches.segment summaryInterval (x.observed finished) i

theorem slot_saveRemaining (x : Run) {i : Nat} (hi : i < x.final.report.saveRemaining.statsCount) :
    0 < (summarized x i).length ∧
    (x.final.report.saveRemaining.statsArray i).toSums = (summarized x i).sum := by
  have hsaved := batches_saveRemaining x.final.report
  have hcount := congrArg Batches.count hsaved
  have hslots := congrFun (congrArg Batches.slots hsaved) i
  obtain ⟨hpos, hsum⟩ := (report_sums x).slot_save summaryInterval_pos x.final.report.keepsRest
    (lt_of_lt_of_eq hi hcount)
  exact ⟨hpos, hslots.trans hsum⟩

theorem divisor_eq (x : Run) (i : Nat) :
    endConn x.final.report.saveRemaining i - startConn i = (summarized x i).length := by
  have htotal : x.final.report.connectionCount = (x.observed finished).length :=
    (report_sums x).total
  rw [summarized, Batches.length_segment, endConn_eq, connectionCount_saveRemaining, htotal]
  rfl

theorem length_summarized_le (x : Run) (i : Nat) : (summarized x i).length ≤ summaryInterval :=
  List.length_take_le _ _

/-- Every summary is exact: during the loop each full interval is in its slot;
after the residual save each slot in use holds the connections its summary
divides by, at least one and at most SUMMARY_INTERVAL of them; and no element
outside the allocation is written. -/
theorem summaries_exact (x : Run) :
    let r := x.final.report
    (r.connectionCount = (x.observed finished).length ∧
      r.statsCount = min (r.connectionCount / summaryInterval) (maxConnections / summaryInterval) ∧
      ∀ i < r.statsCount, (r.statsArray i).toSums = (summarized x i).sum) ∧
    (∀ i < r.saveRemaining.statsCount,
      1 ≤ endConn r.saveRemaining i - startConn i ∧
      endConn r.saveRemaining i - startConn i ≤ summaryInterval ∧
      endConn r.saveRemaining i - startConn i = (summarized x i).length ∧
      (r.saveRemaining.statsArray i).toSums = (summarized x i).sum) ∧
    ∀ i, maxConnections / summaryInterval ≤ i →
      r.statsArray i = x.start.report.statsArray i ∧
      r.saveRemaining.statsArray i = x.start.report.statsArray i := by
  have hsums := report_sums x
  refine ⟨⟨hsums.total, ?_, hsums.slot⟩, ?_, ?_⟩
  · rw [show x.final.report.connectionCount = _ from hsums.total]
    exact hsums.count
  · intro i hi
    obtain ⟨hpos, hsum⟩ := slot_saveRemaining x hi
    rw [divisor_eq]
    exact ⟨hpos, length_summarized_le x i, rfl, hsum⟩
  · intro i hi
    have hout := outside_always x hi
    exact ⟨hout, (saveRemaining_outside _ hi).trans hout⟩

/-! ## Which connections are reported -/

/-- The number of finished connections that the summaries reach. -/
def reported (r : Report) : Nat :=
  if r.connectionCount ≤ maxConnections ∧
      (r.connectionCount % summaryInterval = 0 ∨ 0 < r.tempStats.totalWhenBothPresent) then
    r.connectionCount
  else min (r.connectionCount / summaryInterval) statsCapacity * summaryInterval

theorem covered_saveRemaining (x : Run) :
    x.final.report.saveRemaining.batches.covered summaryInterval = reported x.final.report := by
  have hsums := report_sums x
  have htotal : x.final.report.connectionCount = (x.observed finished).length := hsums.total
  have hcount : x.final.report.batches.count = _ := hsums.count
  rw [batches_saveRemaining, hsums.covered_save summaryInterval_pos, hcount, reported, htotal]
  simp only [Report.keepsRest, decide_eq_true_iff]
  rfl

/-- The loop has been left and the report is written. -/
def Exited (s : State) : Prop := s.running = false ∧ s.pending = []

/-- The printed ranges partition the finished connections up to the last one
reached, and each of these is in exactly one summary, whose counters are the sum
over its range. All connections are reached when there are at most
MAX_CONNECTIONS and the residual interval is empty or saw a pair. -/
theorem summaries_partition (x : Run) :
    let r := x.final.report.saveRemaining
    (∀ i < r.statsCount, startConn i < endConn r i ∧ endConn r i ≤ reported x.final.report ∧
      (r.statsArray i).toSums =
        (((x.observed finished).drop (startConn i)).take (endConn r i - startConn i)).sum) ∧
    ∀ k < reported x.final.report,
      ∃! i, i < r.statsCount ∧ startConn i ≤ k ∧ k < endConn r i := by
  have hcovered := covered_saveRemaining x
  constructor
  · intro i hi
    obtain ⟨hpos, hsum⟩ := slot_saveRemaining x hi
    have hdivisor := divisor_eq x i
    refine ⟨by omega, ?_, ?_⟩
    · rw [← hcovered, endConn_eq]
      have hlast := Batches.lt_covered_of_slot summaryInterval
        x.final.report.saveRemaining.batches (k := endConn x.final.report.saveRemaining i - 1) hi
      rw [endConn_eq] at hlast hdivisor
      have hlt := hlast (by
        change _ < Batches.last summaryInterval i x.final.report.saveRemaining.connectionCount
        omega)
      omega
    · have htotal : x.final.report.connectionCount = (x.observed finished).length :=
        (report_sums x).total
      rw [hsum, summarized, Batches.segment_eq, endConn_eq, connectionCount_saveRemaining, htotal]
      rfl
  · intro k hk
    rw [← hcovered] at hk
    simp only [endConn_eq]
    exact Batches.existsUnique_slot _ summaryInterval_pos hk

def singleConnection : List Input :=
  [ready [3] 0, accepts 4 true 0, ready [3] 0, accepts 5 true 0, ready [5] 1,
    receives .eof true 1, .signal]

theorem permitted_singleConnection : Along step Permitted freshStart singleConnection := by
  with_unfolding_all decide

def singleConnectionRun : Run :=
  ⟨freshStart, singleConnection, initial_freshStart, permitted_singleConnection⟩

theorem unreported_singleConnection : singleConnectionRun.EachStep AddObeyed ∧
    Exited singleConnectionRun.final ∧
    singleConnectionRun.final.report.connectionCount = 1 ∧
    singleConnectionRun.final.report.saveRemaining.statsCount = 0 ∧
    ¬∀ k < singleConnectionRun.final.report.connectionCount,
      ∃! i, i < singleConnectionRun.final.report.saveRemaining.statsCount ∧
        startConn i ≤ k ∧ k < endConn singleConnectionRun.final.report.saveRemaining i := by
  have hfinished : singleConnectionRun.final.report.connectionCount = 1 := by
    with_unfolding_all decide
  have hsummaries : singleConnectionRun.final.report.saveRemaining.statsCount = 0 := by
    with_unfolding_all decide
  refine ⟨(by with_unfolding_all decide : Along step AddObeyed freshStart singleConnection),
    ⟨by with_unfolding_all decide, by with_unfolding_all decide⟩, hfinished, hsummaries, ?_⟩
  intro h
  obtain ⟨i, ⟨hi, _⟩, _⟩ := h 0 (by rw [hfinished]; decide)
  rw [hsummaries] at hi
  exact Nat.not_lt_zero i hi

end ConnectionOrder.ServerEpx3
