import ConnectionOrder.ServerEpx3.Runs
import Mathlib.Data.List.Pairwise
import Mathlib.Algebra.Order.Field.Rat
import Mathlib.Tactic.Positivity

/-!
# What is measured is not negative

Every duration of server_epx3 is the difference of two readings of the clock, and the first
of them was taken earlier. As long as the clock is not set back, no figure of the report is
negative.
-/

namespace ConnectionOrder.ServerEpx3

open Machine

/-- The readings that a start or an end can be set to. -/
def readings : Input → List Timeval
  | .event answers => [answers.time, answers.endTime]
  | .wait .. | .signal => []

def epoch : Timeval := ⟨0, 0⟩

/-- What the clock has shown, the time zero of the initial values first. -/
def clock (inputs : List Input) : List Timeval := epoch :: inputs.flatMap readings

def ClockForward (inputs : List Input) : Prop :=
  (clock inputs).Pairwise fun earlier later => 0 ≤ timeDiff earlier later

instance (inputs : List Input) : Decidable (ClockForward inputs) :=
  inferInstanceAs (Decidable (List.Pairwise _ _))

theorem clock_snoc (inputs : List Input) (i : Input) :
    clock (inputs ++ [i]) = clock inputs ++ readings i := by
  rw [clock, clock, List.flatMap_append, List.flatMap_singleton, List.cons_append]

/-! ## The start and the end of one connection -/

/-- A step leaves both alone, or sets the end, or sets both. -/
inductive Advanced (i : Input) (start stop : Timeval) : Timeval → Timeval → Prop
  | same : Advanced i start stop start stop
  | stop {time : Timeval} (h : time ∈ readings i) : Advanced i start stop start time
  | both {answers : Answers} (h : i = .event answers) :
      Advanced i start stop answers.time answers.endTime

/-- The start is a reading, and the end is not before it. -/
def Ordered (earlier : List Timeval) (start stop : Timeval) : Prop :=
  start ∈ earlier ∧ 0 ≤ timeDiff start stop

theorem Ordered.advance {inputs : List Input} {i : Input} {start stop start' stop' : Timeval}
    (h : Ordered (clock inputs) start stop) (hclock : ClockForward (inputs ++ [i]))
    (hstep : Advanced i start stop start' stop') :
    Ordered (clock (inputs ++ [i])) start' stop' := by
  rw [ClockForward, clock_snoc, List.pairwise_append] at hclock
  obtain ⟨_, hnew, hlater⟩ := hclock
  rw [clock_snoc]
  cases hstep with
  | same => exact ⟨List.mem_append_left _ h.1, h.2⟩
  | stop htime => exact ⟨List.mem_append_left _ h.1, hlater start h.1 _ htime⟩
  | both heq =>
    subst heq
    exact ⟨List.mem_append_right _ List.mem_cons_self,
      List.rel_of_pairwise_cons hnew (List.mem_singleton_self _)⟩

/-! ## What a step does to the figures -/

/-- The figures stay, up to a rejected client. -/
structure Still (s s' : State) : Prop where
  conn1Start : s'.clocks.conn1Start = s.clocks.conn1Start
  conn1End : s'.clocks.conn1End = s.clocks.conn1End
  conn2Start : s'.clocks.conn2Start = s.clocks.conn2Start
  conn2End : s'.clocks.conn2End = s.clocks.conn2End
  rejected : s.rejected ≤ s'.rejected
  conn2Duration : s'.totals.conn2Duration = s.totals.conn2Duration
  report : s'.report = s.report

theorem Still.refl (s : State) : Still s s := ⟨rfl, rfl, rfl, rfl, le_refl _, rfl, rfl⟩

theorem Alike.still {s s' : State} (h : Alike s s') : Still s s' := by
  obtain ⟨_, _, _, rfl⟩ := h
  exact ⟨rfl, rfl, rfl, rfl, le_refl _, rfl, rfl⟩

theorem still_place (s : State) (add : Bool) (fd : Fd) (connectTime : Timeval) :
    Still s (perform s add (.place fd connectTime)) := by
  have hrejected : s.rejected ≤ s.rejected + 1 := Int.le_add_one (le_refl _)
  unfold perform placeClient registerClient
  dsimp only
  split_ifs
  iterate 5 exact ⟨rfl, rfl, rfl, rfl, le_refl _, rfl, rfl⟩
  exact ⟨rfl, rfl, rfl, rfl, hrejected, rfl, rfl⟩

theorem still_demote (s : State) (fd : Fd) : Still s (demote s fd) := by
  have hrejected : s.rejected ≤ s.rejected + 1 := Int.le_add_one (le_refl _)
  rw [demote, dropClient]
  split_ifs
  · exact ⟨rfl, rfl, rfl, rfl, le_refl _, rfl, rfl⟩
  · exact ⟨rfl, rfl, rfl, rfl, le_refl _, rfl, rfl⟩
  · exact ⟨rfl, rfl, rfl, rfl, hrejected, rfl, rfl⟩

theorem still_promoteQueued (s : State) (add : Bool) : Still s (promoteQueued s add) := by
  obtain ⟨_, _, _, _, _, hshape⟩ := promoteQueued_shape s add
  rw [hshape]
  exact ⟨rfl, rfl, rfl, rfl, le_refl _, rfl, rfl⟩

/-- A step takes readings, and records at most the connection in the non-persistent slot. -/
structure Turned (s : State) (i : Input) (s' : State) : Prop where
  conn1 : Advanced i s.clocks.conn1Start s.clocks.conn1End s'.clocks.conn1Start s'.clocks.conn1End
  conn2 : Advanced i s.clocks.conn2Start s.clocks.conn2End s'.clocks.conn2Start s'.clocks.conn2End
  rejected : s.rejected ≤ s'.rejected
  recorded : (s'.totals.conn2Duration = s.totals.conn2Duration ∧ s'.report = s.report) ∨
    (s'.totals.conn2Duration = s.totals.conn2Duration + oneconn2Duration s ∧
      ∃ p, s'.report = s.report.record p (oneconn2Duration s))

namespace Turned

variable {s s' t : State} {i : Input}

theorem of_still (h : Still s s') : Turned s i s' where
  conn1 := by
    rw [h.conn1Start, h.conn1End]
    exact .same
  conn2 := by
    rw [h.conn2Start, h.conn2End]
    exact .same
  rejected := h.rejected
  recorded := .inl ⟨h.conn2Duration, h.report⟩

theorem before (h : Still s s') (hturned : Turned s' i t) : Turned s i t where
  conn1 := h.conn1Start ▸ h.conn1End ▸ hturned.conn1
  conn2 := h.conn2Start ▸ h.conn2End ▸ hturned.conn2
  rejected := h.rejected.trans hturned.rejected
  recorded := by
    have hduration : oneconn2Duration s' = oneconn2Duration s := by
      rw [oneconn2Duration, h.conn2Start, h.conn2End, oneconn2Duration]
    have hrecorded := hturned.recorded
    rwa [hduration, h.conn2Duration, h.report] at hrecorded

theorem after (h : Turned s i s') (hstill : Still s' t) : Turned s i t where
  conn1 := by
    rw [hstill.conn1Start, hstill.conn1End]
    exact h.conn1
  conn2 := by
    rw [hstill.conn2Start, hstill.conn2End]
    exact h.conn2
  rejected := h.rejected.trans hstill.rejected
  recorded := by
    rw [hstill.conn2Duration, hstill.report]
    exact h.recorded

end Turned

theorem time_mem_readings (answers : Answers) : answers.time ∈ readings (.event answers) :=
  List.mem_cons_self

theorem endTime_mem_readings (answers : Answers) : answers.endTime ∈ readings (.event answers) :=
  List.mem_cons_of_mem _ List.mem_cons_self

/-- The start is set with the first data of a connection, the end with all of it. -/
theorem advanced_tally (answers : Answers) (started : Bool) (start stop : Timeval) :
    Advanced (.event answers) start stop (if started then start else answers.time)
      answers.endTime := by
  cases started with
  | true => exact .stop (endTime_mem_readings answers)
  | false => exact .both rfl

theorem turned_countData (s : State) (answers : Answers) (fd : Fd) (n : Nat) :
    Turned s (.event answers) (countData s fd n answers.time answers.endTime) := by
  rw [countData]
  split_ifs
  · obtain ⟨_, _, _, _, _, hpair⟩ :=
      pairPersistent_shape (tallyPersistent s n answers.time answers.endTime)
    rw [hpair]
    exact ⟨advanced_tally answers _ _ _, .same, le_refl _, .inl ⟨rfl, rfl⟩⟩
  · obtain ⟨_, _, _, _, _, hpair⟩ :=
      pairNonPersistent_shape (tallyNonPersistent s n answers.time answers.endTime)
    rw [hpair]
    exact ⟨.same, advanced_tally answers _ _ _, le_refl _, .inl ⟨rfl, rfl⟩⟩
  · exact .of_still (.refl s)

theorem turned_readData (s : State) (answers : Answers) (fd : Fd) (chunk : Chunk bufferSize) :
    Turned s (.event answers) (readData s fd chunk answers.time answers.endTime) := by
  rw [readData]
  split_ifs
  · exact .of_still (still_demote s fd)
  · exact .before (still_demote s fd) (turned_countData _ answers fd _)
  · exact turned_countData s answers fd _

theorem turned_finish (s : State) (i : Input) (add : Bool) :
    Turned s i (perform s add .finish) := by
  have hexpire : Turned s i (expireInactive s) :=
    ⟨.same, .same, le_refl _, .inr ⟨rfl, s.progress, rfl⟩⟩
  exact hexpire.after (still_promoteQueued _ add)

/-- The times of an action are readings of the step. -/
def Dated (i : Input) : Action → Prop
  | .data _ _ time endTime => ∃ answers, i = .event answers ∧ answers.time = time ∧
      answers.endTime = endTime
  | .leave time => time ∈ readings i
  | .quiet | .place .. | .finish | .stray _ => True

theorem dated_action (s : State) (i : Input) : Dated i (action s i) := by
  cases i with
  | signal => trivial
  | wait batch currentTime eventTime add =>
    rw [action]
    split_ifs <;> trivial
  | event answers =>
    rw [action]
    cases s.pending with
    | nil => trivial
    | cons eventFd rest =>
      dsimp only
      split_ifs
      · cases answers.accept <;> trivial
      · rw [clientAction]
        cases answers.recv with
        | data chunk => exact ⟨answers, rfl, rfl, rfl⟩
        | again => trivial
        | eof | error =>
          dsimp only
          split_ifs
          · exact time_mem_readings answers
          · trivial
          · trivial

theorem turned_step (s : State) (i : Input) : Turned s i (step s i) := by
  have hdated := dated_action s i
  refine Turned.after ?_ (step_alike s i).still
  cases haction : action s i with
  | quiet => exact .of_still (.refl s)
  | place fd connectTime => exact .of_still (still_place s i.add fd connectTime)
  | data fd chunk time endTime =>
    rw [haction] at hdated
    obtain ⟨answers, rfl, rfl, rfl⟩ := hdated
    exact turned_readData s answers fd chunk
  | leave time =>
    rw [haction] at hdated
    exact ⟨.stop hdated, .same, le_refl _, .inl ⟨rfl, rfl⟩⟩
  | finish => exact turned_finish s i i.add
  | stray fd => exact .of_still ⟨rfl, rfl, rfl, rfl, le_refl _, rfl, rfl⟩

/-! ## The records -/

/-- The figures of a record that are not counters. -/
structure ConnectionStats.NonNegative (stats : ConnectionStats) : Prop where
  oneconn2Duration : 0 ≤ stats.oneconn2Duration
  persistentRatio : 0 ≤ stats.persistentRatio
  nonPersistentRatio : 0 ≤ stats.nonPersistentRatio
  throughputMbpsper : 0 ≤ stats.throughputMbpsper
  throughputMbpsnonper : 0 ≤ stats.throughputMbpsnonper

theorem ConnectionStats.NonNegative.fold {temp : ConnectionStats} (h : temp.NonNegative)
    (p : Progress) {oneconn2Duration : ℚ} (hduration : 0 ≤ oneconn2Duration) :
    (temp.fold p oneconn2Duration).NonNegative := by
  have hratio : ∀ n : UInt64, 0 ≤ if 0 < p.both then (n.toNat : ℚ) / (p.both : ℚ) else 0 := by
    intro n
    split_ifs with hboth
    · have hpos : (0 : ℚ) ≤ p.both := Int.cast_nonneg hboth.le
      positivity
    · exact le_refl _
  have hthroughput : ∀ n : UInt64, 0 ≤ if 0 < oneconn2Duration
      then (n.toNat : ℚ) * 8 / (oneconn2Duration * 1000000) else 0 := by
    intro n
    split_ifs <;> positivity
  exact ⟨add_nonneg h.oneconn2Duration hduration, hratio _, hratio _, hthroughput _, hthroughput _⟩

structure Report.NonNegative (r : Report) : Prop where
  tempStats : r.tempStats.NonNegative
  statsArray : ∀ i < r.statsCount, (r.statsArray i).NonNegative

theorem nonNegative_zero : ConnectionStats.zero.NonNegative :=
  ⟨le_refl _, le_refl _, le_refl _, le_refl _, le_refl _⟩

theorem nonNegative_update {statsArray : Nat → ConnectionStats} {statsCount : Nat}
    {stats : ConnectionStats} (h : ∀ i < statsCount, (statsArray i).NonNegative)
    (hstats : stats.NonNegative) : ∀ i < statsCount + 1,
      (Function.update statsArray statsCount stats i).NonNegative := by
  intro i hi
  cases eq_or_ne i statsCount with
  | inl heq =>
    rw [heq, Function.update_self]
    exact hstats
  | inr hne =>
    rw [Function.update_of_ne hne]
    exact h i (by omega)

theorem Report.NonNegative.record {r : Report} (h : r.NonNegative) (p : Progress)
    {oneconn2Duration : ℚ} (hduration : 0 ≤ oneconn2Duration) :
    (r.record p oneconn2Duration).NonNegative := by
  have hfold := h.tempStats.fold p hduration
  rw [Report.record]
  split
  · exact ⟨nonNegative_zero, nonNegative_update h.statsArray hfold⟩
  · exact ⟨hfold, h.statsArray⟩

theorem Report.NonNegative.saveRemaining {r : Report} (h : r.NonNegative) :
    r.saveRemaining.NonNegative := by
  rw [Report.saveRemaining]
  split
  · exact ⟨h.tempStats, nonNegative_update h.statsArray h.tempStats⟩
  · exact h

/-! ## The figures of a run -/

structure Figures (inputs : List Input) (s : State) : Prop where
  conn1 : Ordered (clock inputs) s.clocks.conn1Start s.clocks.conn1End
  conn2 : Ordered (clock inputs) s.clocks.conn2Start s.clocks.conn2End
  rejected : 0 ≤ s.rejected
  conn2Duration : 0 ≤ s.totals.conn2Duration
  report : s.report.NonNegative

theorem figures_start {s : State} (h : Initial s) : Figures [] s := by
  obtain ⟨serverFd, lastEventTime, queue, statsArray, _, rfl⟩ := h
  have htimed : Ordered (clock []) epoch epoch := ⟨List.mem_cons_self, by with_unfolding_all decide⟩
  exact ⟨htimed, htimed, le_refl _, le_refl _, nonNegative_zero,
    fun i hi => (Nat.not_lt_zero i hi).elim⟩

theorem Figures.step {inputs : List Input} {s s' : State} {i : Input} (h : Figures inputs s)
    (hclock : ClockForward (inputs ++ [i])) (hstep : Turned s i s') :
    Figures (inputs ++ [i]) s' := by
  have hduration : 0 ≤ oneconn2Duration s := h.conn2.2
  refine ⟨h.conn1.advance hclock hstep.conn1, h.conn2.advance hclock hstep.conn2,
    h.rejected.trans hstep.rejected, ?_, ?_⟩
  · rcases hstep.recorded with ⟨hsame, _⟩ | ⟨hmore, _⟩
    · rw [hsame]
      exact h.conn2Duration
    · rw [hmore]
      exact add_nonneg h.conn2Duration hduration
  · rcases hstep.recorded with ⟨_, hsame⟩ | ⟨_, p, hmore⟩
    · rw [hsame]
      exact h.report
    · rw [hmore]
      exact h.report.record p hduration

theorem ClockForward.of_snoc {inputs : List Input} {i : Input}
    (h : ClockForward (inputs ++ [i])) : ClockForward inputs := by
  rw [ClockForward, clock_snoc, List.pairwise_append] at h
  exact h.1

/-- In a run whose clock is not set back no figure is negative. -/
theorem figures_final (x : Run) (h : ClockForward x.inputs) : Figures x.inputs x.final := by
  have hall : ClockForward x.inputs → Figures x.inputs (run step x.start x.inputs) := by
    apply x.history_induction (P := fun inputs => ClockForward inputs →
      Figures inputs (run step x.start inputs))
    · exact fun _ => figures_start x.begins
    · intro inputs i _ _ ih hclock
      rw [run_snoc]
      exact (ih hclock.of_snoc).step hclock (turned_step _ i)
  exact hall h

end ConnectionOrder.ServerEpx3
