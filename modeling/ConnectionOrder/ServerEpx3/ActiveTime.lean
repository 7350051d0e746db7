import ConnectionOrder.ServerEpx3.Counters
import ConnectionOrder.ServerEpx3.Derived
import ConnectionOrder.ServerEpx3.Tallies
import Mathlib.Tactic.Linarith

/-!
# The time between the first and the last data of a connection

A connection in a slot is active from its first data event counted there to its
last one. The server keeps one start and one end for each slot, shared by all
connections that pass through it.
-/

namespace ConnectionOrder.ServerEpx3

open Machine

/-- Clock readings of the connection in a slot, none as long as it has sent nothing,
and the active time of the connections that were in the slot before. -/
structure Active where
  current : Option (Timeval × Timeval)
  ended : ℚ

namespace Active

def start : Active := ⟨none, 0⟩

def duration (current : Option (Timeval × Timeval)) : ℚ :=
  current.elim 0 fun readings => timeDiff readings.1 readings.2

def total (a : Active) : ℚ := a.ended + duration a.current

def hear (a : Active) (time endTime : Timeval) : Active :=
  { a with current := some ((a.current.map Prod.fst).getD time, endTime) }

def close (a : Active) (time : Timeval) : Active :=
  { a with current := a.current.map fun readings => (readings.1, time) }

/-- The connection leaves the slot. -/
def leave (a : Active) : Active := ⟨none, a.total⟩

theorem total_leave (a : Active) : a.leave.total = a.total := add_zero _

end Active

/-! ## The clocks after a step -/

theorem clocks_readData (s : State) {fd : Fd} (hfd : fd ≠ -1) (chunk : Chunk bufferSize)
    (time endTime : Timeval) :
    (readData s fd chunk time endTime).clocks =
      if tallied s fd chunk = some .one then
        { s.clocks with
          conn1Start := if s.clocks.conn1Started then s.clocks.conn1Start else time
          conn1Started := true
          conn1End := endTime }
      else if tallied s fd chunk = some .two then
        { (reassigned s fd chunk).clocks with
          conn2Start := if s.clocks.conn2Started then s.clocks.conn2Start else time
          conn2Started := true
          conn2End := endTime }
      else (reassigned s fd chunk).clocks := by
  cases htally : tallied s fd chunk with
  | none =>
    rw [readData_none hfd htally]
    rfl
  | some side =>
    cases side with
    | one =>
      obtain ⟨_, _, _, _, _, hpair⟩ :=
        pairPersistent_shape (tallyPersistent s chunk.length time endTime)
      rw [(readData_one htally time endTime).2.2, hpair]
      rfl
    | two =>
      obtain ⟨_, _, _, _, _, hpair⟩ := pairNonPersistent_shape
        (tallyNonPersistent (reassigned s fd chunk) chunk.length time endTime)
      rw [readData_two hfd htally, hpair, tallyNonPersistent, clocks_reassigned]
      rfl

theorem clocks_place (s : State) (add : Bool) (fd : Fd) (connectTime : Timeval) :
    (perform s add (.place fd connectTime)).clocks = s.clocks := by
  obtain ⟨_, _, _, _, hshape⟩ := place_shape s add fd connectTime
  rw [hshape]

theorem clocks_finish (s : State) (add : Bool) :
    (perform s add .finish).clocks = { s.clocks with conn2Started := false } := by
  obtain ⟨_, _, _, _, _, hshape⟩ := promoteQueued_shape (expireInactive s) add
  rw [perform, hshape]
  rfl

/-! ## The non-persistent slot -/

def noteNonPersistent (a : Active) (s : State) (i : Input) : Active :=
  match action s i with
  | .data fd chunk time endTime =>
    if tallied s fd chunk = some .two then a.hear time endTime else a
  | .finish => a.leave
  | .quiet | .place .. | .leave _ | .stray _ => a

/-- The active time of all finished non-persistent connections. -/
def finishedActive (x : Run) : ℚ := (x.tracked noteNonPersistent Active.start).ended

/-- The sum of oneconn2_duration over the summaries that are written. -/
def Report.oneconn2Sum (r : Report) : ℚ :=
  ((List.range r.statsCount).map fun i => (r.statsArray i).oneconn2Duration).sum

def ActiveTimeExact (x : Run) : Prop :=
  x.final.totals.conn2Duration = finishedActive x ∧
  x.final.report.saveRemaining.oneconn2Sum = finishedActive x

/-- A connection that finishes has sent something, or the readings left by its
predecessors are equal. -/
def Timed (s : State) (i : Input) : Prop :=
  match action s i with
  | .finish => s.clocks.conn2Started = true ∨ oneconn2Duration s = 0
  | .quiet | .place .. | .data .. | .leave _ | .stray _ => True

/-- The summary in progress is saved, or it has no active time. -/
def RestReported (s : State) : Prop :=
  s.report.connectionCount % summaryInterval ≠ 0 ∧ s.report.statsCount < statsCapacity ∧
    0 < s.report.tempStats.totalWhenBothPresent ∨ s.report.tempStats.oneconn2Duration = 0

/-- The readings of the connection in the slot, once it has sent something. -/
def Clocks.readings2 (c : Clocks) : Option (Timeval × Timeval) :=
  if c.conn2Started then some (c.conn2Start, c.conn2End) else none

theorem readings2_step {s : State} {i : Input} {a : Active} (hp : Permitted s i)
    (hpos : SocketsNonneg s) (h : a.current = s.clocks.readings2) :
    (noteNonPersistent a s i).current = (step s i).clocks.readings2 := by
  obtain ⟨_, _, _, halike⟩ := step_alike s i
  have hperform : (noteNonPersistent a s i).current =
      (perform s i.add (action s i)).clocks.readings2 := by
    rw [noteNonPersistent]
    cases ha : action s i with
    | quiet | leave | stray => exact h
    | place fd connectTime => rwa [clocks_place]
    | finish => rw [clocks_finish]; rfl
    | data fd chunk time endTime =>
      have hfd := ne_sentinel_of_open hpos (permitted_data hp ha)
      rw [perform, clocks_readData s hfd]
      dsimp only
      cases htally : tallied s fd chunk with
      | none =>
        rw [if_neg (by decide), if_neg (by decide), if_neg (by decide), clocks_reassigned]
        exact h
      | some side =>
        cases side with
        | one =>
          rw [if_neg (by decide), if_pos rfl]
          exact h
        | two =>
          rw [if_pos rfl, if_neg (by decide), if_pos rfl, Active.hear, h]
          cases hstarted : s.clocks.conn2Started with
          | false | true => simp [Clocks.readings2, hstarted]
  rw [hperform, halike]
  rfl

theorem conn2Duration_countData (s : State) (fd : Fd) (n : Nat) (time endTime : Timeval) :
    (countData s fd n time endTime).totals.conn2Duration = s.totals.conn2Duration := by
  rw [countData, pairPersistent, pairNonPersistent]
  split_ifs <;> rfl

theorem conn2Duration_demote (s : State) (fd : Fd) :
    (demote s fd).totals.conn2Duration = s.totals.conn2Duration := by
  obtain ⟨_, _, _, _, _, _, _, _, _, _, _, hshape⟩ := demote_shape s fd
  rw [hshape]

def finishedDuration (s : State) (i : Input) : ℚ :=
  match action s i with
  | .finish => oneconn2Duration s
  | .quiet | .place .. | .data .. | .leave _ | .stray _ => 0

theorem conn2Duration_step (s : State) (i : Input) :
    (step s i).totals.conn2Duration = s.totals.conn2Duration + finishedDuration s i := by
  obtain ⟨_, _, _, halike⟩ := step_alike s i
  rw [halike, finishedDuration]
  cases action s i with
  | quiet | leave | stray => exact (add_zero _).symm
  | place fd connectTime =>
    obtain ⟨_, _, _, _, hshape⟩ := place_shape s i.add fd connectTime
    rw [hshape]
    exact (add_zero _).symm
  | finish =>
    obtain ⟨_, _, _, _, _, hshape⟩ := promoteQueued_shape (expireInactive s) i.add
    rw [perform, hshape]
    rfl
  | data fd chunk time endTime =>
    simp only [perform, readData, add_zero]
    split
    · split
      · exact conn2Duration_demote s fd
      · exact (conn2Duration_countData _ _ _ _ _).trans (conn2Duration_demote s fd)
    · exact conn2Duration_countData _ _ _ _ _

/-- What the slots and temp_stats hold together is conn2_duration. -/
theorem recorded_duration (x : Run) :
    x.final.report.recorded.oneconn2Duration = x.final.totals.conn2Duration := by
  apply x.history_induction (P := fun is =>
    (run step x.start is).report.recorded.oneconn2Duration =
      (run step x.start is).totals.conn2Duration)
  · obtain ⟨_, _, _, _, _, hstart⟩ := x.begins
    rw [run_nil, hstart]
    exact add_zero (0 : ℚ)
  · intro is i _ _ h
    rw [run_snoc, report_step, conn2Duration_step, finishedDuration]
    cases action (run step x.start is) i with
    | quiet | leave | stray | place | data => exact h.trans (add_zero _).symm
    | finish =>
      dsimp only
      rw [recorded_record]
      exact congrArg (· + oneconn2Duration (run step x.start is)) h

theorem sum_oneconn2Duration (sums : List Sums) :
    sums.sum.oneconn2Duration = (sums.map Sums.oneconn2Duration).sum := by
  induction sums with
  | nil => rfl
  | cons a sums ih =>
    rw [List.sum_cons, List.map_cons, List.sum_cons, ← ih]
    rfl

/-- The written summaries lack nothing exactly when the rest is reported. -/
theorem oneconn2Sum_eq_iff (s : State) :
    s.report.saveRemaining.oneconn2Sum = s.report.recorded.oneconn2Duration ↔ RestReported s := by
  have hrecorded : s.report.recorded.oneconn2Duration =
      s.report.oneconn2Sum + s.report.tempStats.oneconn2Duration := by
    change (((List.range s.report.statsCount).map fun i =>
      (s.report.statsArray i).toSums).sum).oneconn2Duration + _ = _
    rw [sum_oneconn2Duration, List.map_map]
    rfl
  rw [hrecorded, RestReported, Report.saveRemaining]
  split
  · rename_i hsave
    refine iff_of_true ?_ (.inl hsave)
    have hold : (List.range s.report.statsCount).map (fun i => (Function.update s.report.statsArray
        s.report.statsCount s.report.tempStats i).oneconn2Duration) =
      (List.range s.report.statsCount).map fun i => (s.report.statsArray i).oneconn2Duration := by
      apply List.map_congr_left
      intro i hi
      rw [Function.update_of_ne (Nat.ne_of_lt (List.mem_range.mp hi))]
    rw [Report.oneconn2Sum]
    dsimp only
    rw [List.range_succ, List.map_append, hold, List.sum_append, List.map_singleton,
      List.sum_singleton, Function.update_self, Report.oneconn2Sum]
  · rename_i hskip
    rw [or_iff_right hskip]
    exact left_eq_add

/-- conn2_duration is exact in every state of a run exactly when every connection that
finishes is timed. -/
theorem conn2Duration_exact_iff (x : Run) :
    (∀ n, (x.upTo n).final.totals.conn2Duration = finishedActive (x.upTo n)) ↔
      x.EachStep Timed := by
  apply x.forall_take_iff_eachStep
    (J := fun is => SocketsNonneg (run step x.start is) ∧
      (track step noteNonPersistent Active.start x.start is).current =
        (run step x.start is).clocks.readings2)
    (P := fun is => (run step x.start is).totals.conn2Duration =
      (track step noteNonPersistent Active.start x.start is).ended)
  · obtain ⟨_, _, _, _, _, hstart⟩ := x.begins
    refine ⟨⟨socketsNonneg_start x.begins, ?_⟩, ?_⟩
    · rw [run_nil, hstart]
      rfl
    · rw [run_nil, hstart]
      rfl
  · rintro is i hp ⟨hpos, hcurrent⟩ _ _
    rw [run_snoc, track_snoc]
    exact ⟨socketsNonneg_step hp hpos, readings2_step hp hpos hcurrent⟩
  · rintro is i hp ⟨_, hcurrent⟩ hexact
    rw [run_snoc, track_snoc, conn2Duration_step, finishedDuration, Timed, noteNonPersistent]
    cases ha : action (run step x.start is) i with
    | quiet | place | leave | stray => exact iff_of_true ((add_zero _).trans hexact) trivial
    | data fd chunk time endTime =>
      refine iff_of_true ((add_zero _).trans ?_) trivial
      dsimp only
      split <;> exact hexact
    | finish =>
      dsimp only
      rw [Active.leave, Active.total, hexact, hcurrent, add_right_inj, Clocks.readings2]
      cases (run step x.start is).clocks.conn2Started with
      | true => exact iff_of_true rfl (.inl rfl)
      | false =>
        rw [or_iff_right (by decide)]
        rfl

theorem activeTimeExact_iff (x : Run) : ActiveTimeExact x ↔
    x.final.totals.conn2Duration = finishedActive x ∧ RestReported x.final := by
  rw [ActiveTimeExact, ← oneconn2Sum_eq_iff, recorded_duration]
  exact and_congr_right fun hexact => by rw [hexact]

/-- The active time is exact in every state of a run exactly when every connection that
finishes is timed and the rest of the report has been saved or is empty, and at the
end of a run of timed connections exactly when this holds of the rest at the end. -/
theorem active_time_exact_iff (x : Run) :
    ((∀ n, ActiveTimeExact (x.upTo n)) ↔ x.EachStep Timed ∧ x.Always RestReported) ∧
    (x.EachStep Timed → (ActiveTimeExact x ↔ RestReported x.final)) := by
  constructor
  · simp only [activeTimeExact_iff, forall_and, conn2Duration_exact_iff]
    rfl
  · intro htimed
    have hexact := (conn2Duration_exact_iff x).mpr htimed x.inputs.length
    rw [x.upTo_length] at hexact
    rw [activeTimeExact_iff]
    exact and_iff_right hexact

/-- The first connection is active for four seconds, the second one closes at once. -/
def silentSecond : List Input :=
  [ready [3] 0, accepts 4 true 0, ready [3] 0, accepts 5 true 0, ready [5] 1,
    receives (.data chunkN) true 1, ready [5] 5, receives (.data chunkN) true 5, ready [5] 6,
    receives .eof true 6, ready [3] 7, accepts 5 true 7, ready [5] 8, receives .eof true 8]

theorem permitted_silentSecond : Along step Permitted freshStart silentSecond := by
  with_unfolding_all decide

def silentSecondRun : Run :=
  ⟨freshStart, silentSecond, initial_freshStart, permitted_silentSecond⟩

theorem counted_twice_silentSecond : silentSecondRun.EachStep AddObeyed ∧
    silentSecondRun.final.totals.conn2Duration = 8 ∧ finishedActive silentSecondRun = 4 ∧
    ¬∀ n, ActiveTimeExact (silentSecondRun.upTo n) := by
  have hduration : silentSecondRun.final.totals.conn2Duration = 8 := by with_unfolding_all decide
  have hactive : finishedActive silentSecondRun = 4 := by with_unfolding_all decide
  refine ⟨(by with_unfolding_all decide : Along step AddObeyed freshStart silentSecond),
    hduration, hactive, fun h => ?_⟩
  have hfinal : ActiveTimeExact silentSecondRun := h silentSecond.length
  exact absurd (hduration.symm.trans (hfinal.1.trans hactive)) (by decide)

/-! ## The persistent slot -/

def notePersistent (a : Active) (s : State) (i : Input) : Active :=
  match action s i with
  | .data fd chunk time endTime =>
    if tallied s fd chunk = some .one then a.hear time endTime
    else if Misidentified s fd chunk then a.leave
    else a
  | .leave time => (a.close time).leave
  | .quiet | .place .. | .finish | .stray _ => a

/-- The active time of all connections that have held the persistent slot. -/
def persistentActive (x : Run) : ℚ := (x.tracked notePersistent Active.start).total

def oneconn1Duration (s : State) : ℚ := timeDiff s.clocks.conn1Start s.clocks.conn1End

/-- avg_throughput_mbpsper of write_stats_to_file. -/
def avgThroughputMbpsper (s : State) : ℚ :=
  throughput s.totals.allPerBytes.toNat (oneconn1Duration s)

def PersistentTimeExact (x : Run) : Prop :=
  oneconn1Duration x.final = persistentActive x ∧
  avgThroughputMbpsper x.final = throughput x.final.totals.allPerBytes.toNat (persistentActive x)

/-- The first data of a connection finds no active time of a predecessor, and only a
connection that has sent something moves conn1_end by closing. -/
def SoleTenant (s : State) (i : Input) : Prop :=
  match action s i with
  | .data fd chunk _ _ =>
    tallied s fd chunk = some .one → s.clocks.conn1Started = true ∨ oneconn1Duration s = 0
  | .leave time => s.clocks.conn1Started = true ∨ timeDiff s.clocks.conn1End time = 0
  | .quiet | .place .. | .finish | .stray _ => True

def Clocks.readings1 (c : Clocks) : Option (Timeval × Timeval) :=
  if c.conn1Started then some (c.conn1Start, c.conn1End) else none

theorem readings1_step {s : State} {i : Input} {a : Active} (hp : Permitted s i)
    (hpos : SocketsNonneg s) (h : a.current = s.clocks.readings1) :
    (notePersistent a s i).current = (step s i).clocks.readings1 := by
  obtain ⟨_, _, _, halike⟩ := step_alike s i
  have hperform : (notePersistent a s i).current =
      (perform s i.add (action s i)).clocks.readings1 := by
    rw [notePersistent]
    cases ha : action s i with
    | quiet | stray => exact h
    | leave => rfl
    | place fd connectTime => rwa [clocks_place]
    | finish =>
      rw [clocks_finish]
      exact h
    | data fd chunk time endTime =>
      have hfd := ne_sentinel_of_open hpos (permitted_data hp ha)
      rw [perform, clocks_readData s hfd]
      dsimp only
      have hmoved : (if Misidentified s fd chunk then a.leave else a).current =
          (reassigned s fd chunk).clocks.readings1 := by
        rw [clocks_reassigned]
        split
        · rfl
        · exact h
      cases htally : tallied s fd chunk with
      | none =>
        have hone : (none : Option Side) ≠ some .one := by decide
        have htwo : (none : Option Side) ≠ some .two := by decide
        rwa [if_neg hone, if_neg hone, if_neg htwo]
      | some side =>
        cases side with
        | two =>
          have hone : some Side.two ≠ some .one := by decide
          rw [if_neg hone, if_neg hone, if_pos rfl]
          exact hmoved
        | one =>
          rw [if_pos rfl, if_pos rfl, Active.hear, h]
          cases hstarted : s.clocks.conn1Started with
          | false | true => simp [Clocks.readings1, hstarted]
  rw [hperform, halike]
  rfl

theorem readings1_cases {s : State} {a : Active} (h : a.current = s.clocks.readings1) :
    (s.clocks.conn1Started = true ∧ a.current = some (s.clocks.conn1Start, s.clocks.conn1End)) ∨
    (s.clocks.conn1Started = false ∧ a.current = none) := by
  rw [h, Clocks.readings1]
  cases s.clocks.conn1Started with
  | true => exact .inl ⟨rfl, if_pos rfl⟩
  | false => exact .inr ⟨rfl, if_neg (by decide)⟩

/-- The persistent connection closes. -/
theorem leave_exact_iff {s : State} {a : Active} (time : Timeval)
    (h : a.current = s.clocks.readings1) (hexact : oneconn1Duration s = a.total) :
    timeDiff s.clocks.conn1Start time = (a.close time).leave.total ↔
      s.clocks.conn1Started = true ∨ timeDiff s.clocks.conn1End time = 0 := by
  have hsplit := timeDiff_add s.clocks.conn1Start s.clocks.conn1End time
  rw [oneconn1Duration, Active.total] at hexact
  rw [Active.total_leave, Active.total, Active.close]
  rcases readings1_cases h with ⟨hstarted, hcurrent⟩ | ⟨hstarted, hcurrent⟩
  · rw [hcurrent] at hexact ⊢
    change _ = a.ended + timeDiff s.clocks.conn1Start s.clocks.conn1End at hexact
    change _ = a.ended + timeDiff s.clocks.conn1Start time ↔ _
    exact iff_of_true (by linarith) (.inl hstarted)
  · rw [hcurrent] at hexact ⊢
    change _ = a.ended + 0 at hexact
    change _ = a.ended + 0 ↔ _
    rw [hstarted, or_iff_right (by decide)]
    constructor <;> intro heq <;> linarith

/-- The persistent connection sends. -/
theorem hear_exact_iff {s : State} {a : Active} (time endTime : Timeval)
    (h : a.current = s.clocks.readings1) (hexact : oneconn1Duration s = a.total) :
    timeDiff (if s.clocks.conn1Started then s.clocks.conn1Start else time) endTime =
        (a.hear time endTime).total ↔
      s.clocks.conn1Started = true ∨ oneconn1Duration s = 0 := by
  rw [Active.total] at hexact
  rw [Active.total, Active.hear]
  rcases readings1_cases h with ⟨hstarted, hcurrent⟩ | ⟨hstarted, hcurrent⟩
  · rw [hcurrent] at hexact ⊢
    rw [if_pos hstarted]
    change oneconn1Duration s = a.ended + oneconn1Duration s at hexact
    change _ = a.ended + timeDiff s.clocks.conn1Start endTime ↔ _
    exact iff_of_true (by linarith) (.inl hstarted)
  · rw [hcurrent] at hexact ⊢
    rw [if_neg (by rw [hstarted]; decide)]
    change _ = a.ended + 0 at hexact
    change _ = a.ended + timeDiff time endTime ↔ _
    rw [hstarted, or_iff_right (by decide)]
    constructor <;> intro heq <;> linarith

theorem exact_step_iff {s : State} {i : Input} {a : Active} (hp : Permitted s i)
    (hpos : SocketsNonneg s) (h : a.current = s.clocks.readings1)
    (hexact : oneconn1Duration s = a.total) :
    oneconn1Duration (step s i) = (notePersistent a s i).total ↔ SoleTenant s i := by
  obtain ⟨_, _, _, halike⟩ := step_alike s i
  have hperform : oneconn1Duration (step s i) =
      oneconn1Duration (perform s i.add (action s i)) := by
    rw [halike]
    rfl
  rw [hperform, notePersistent, SoleTenant]
  cases ha : action s i with
  | quiet | stray => exact iff_of_true hexact trivial
  | place fd connectTime =>
    rw [oneconn1Duration, clocks_place]
    exact iff_of_true hexact trivial
  | finish =>
    rw [oneconn1Duration, clocks_finish]
    exact iff_of_true hexact trivial
  | leave time => exact leave_exact_iff time h hexact
  | data fd chunk time endTime =>
    have hfd := ne_sentinel_of_open hpos (permitted_data hp ha)
    rw [perform, oneconn1Duration, clocks_readData s hfd]
    dsimp only
    -- Without an event of the persistent slot both times stay as they are.
    have hkept : oneconn1Duration s = (if Misidentified s fd chunk then a.leave else a).total := by
      split
      · rwa [Active.total_leave]
      · exact hexact
    cases htally : tallied s fd chunk with
    | none =>
      have hone : (none : Option Side) ≠ some .one := by decide
      have htwo : (none : Option Side) ≠ some .two := by decide
      rw [if_neg hone, if_neg hone, if_neg htwo, clocks_reassigned]
      exact iff_of_true hkept fun habsurd => absurd habsurd hone
    | some side =>
      cases side with
      | two =>
        have hone : some Side.two ≠ some .one := by decide
        rw [if_neg hone, if_neg hone, if_pos rfl, clocks_reassigned]
        exact iff_of_true hkept fun habsurd => absurd habsurd hone
      | one =>
        rw [if_pos rfl, if_pos rfl]
        exact (hear_exact_iff time endTime h hexact).trans ⟨fun hor _ => hor, fun hor => hor rfl⟩

/-- The time measured for the persistent slot, and the throughput computed from it, are
exact in every state of a run exactly when at most one tenant is measured. -/
theorem persistent_time_exact_iff (x : Run) :
    (∀ n, PersistentTimeExact (x.upTo n)) ↔ x.EachStep SoleTenant := by
  have hduration : (∀ n, oneconn1Duration (x.upTo n).final = persistentActive (x.upTo n)) ↔
      x.EachStep SoleTenant := by
    apply x.forall_take_iff_eachStep
      (J := fun is => SocketsNonneg (run step x.start is) ∧
        (track step notePersistent Active.start x.start is).current =
          (run step x.start is).clocks.readings1)
      (P := fun is => oneconn1Duration (run step x.start is) =
        (track step notePersistent Active.start x.start is).total)
    · obtain ⟨_, _, _, _, _, hstart⟩ := x.begins
      refine ⟨⟨socketsNonneg_start x.begins, ?_⟩, ?_⟩
      · rw [run_nil, hstart]
        rfl
      · rw [run_nil, hstart]
        change timeDiff ⟨0, 0⟩ ⟨0, 0⟩ = 0 + 0
        norm_num [timeDiff]
    · rintro is i hp ⟨hpos, hcurrent⟩ _ _
      rw [run_snoc, track_snoc]
      exact ⟨socketsNonneg_step hp hpos, readings1_step hp hpos hcurrent⟩
    · rintro is i hp ⟨hpos, hcurrent⟩ hexact
      rw [run_snoc, track_snoc]
      exact exact_step_iff hp hpos hcurrent hexact
  rw [← hduration]
  refine forall_congr' fun n => and_iff_left_of_imp fun hexact => ?_
  rw [avgThroughputMbpsper, hexact]

/-- Two persistent connections in succession, each active for two seconds. -/
def successors : List Input :=
  [ready [3] 0, accepts 4 true 0, ready [3] 0, accepts 5 true 0, ready [4] 1,
    receives (.data chunkP) true 1, ready [4] 3, receives (.data chunkP) true 3, ready [4] 3,
    receives .eof true 3, ready [3] 10, accepts 4 true 10, ready [4] 10,
    receives (.data chunkP) true 10, ready [4] 12, receives (.data chunkP) true 12]

theorem permitted_successors : Along step Permitted freshStart successors := by
  with_unfolding_all decide

def successorsRun : Run := ⟨freshStart, successors, initial_freshStart, permitted_successors⟩

theorem overwritten_successors : successorsRun.EachStep AddObeyed ∧
    successorsRun.final.totals.allPerBytes = 4 ∧ oneconn1Duration successorsRun.final = 2 ∧
    persistentActive successorsRun = 4 ∧
    ¬∀ n, PersistentTimeExact (successorsRun.upTo n) := by
  have hduration : oneconn1Duration successorsRun.final = 2 := by with_unfolding_all decide
  have hactive : persistentActive successorsRun = 4 := by with_unfolding_all decide
  refine ⟨(by with_unfolding_all decide : Along step AddObeyed freshStart successors),
    by with_unfolding_all decide, hduration, hactive, fun h => ?_⟩
  have hfinal : PersistentTimeExact successorsRun := h successors.length
  exact absurd (hduration.symm.trans (hfinal.1.trans hactive)) (by decide)

end ConnectionOrder.ServerEpx3
