import ConnectionOrder.Resultexp3.Scripts
import ConnectionOrder.ServerEpx3.Branches
import ConnectionOrder.ServerEpx3.Durations
import ConnectionOrder.ServerEpx3.Measurement

/-!
# The scripts on the runs of server_epx3

A run whose clock is not set back ends with a log that all scripts can read.
-/

namespace ConnectionOrder.Resultexp3

open PyText PyDict StatsLog ServerEpx3

/-! ## No number of the log is negative -/

theorem double_nonneg (n : UInt64) : 0 ≤ double n := Nat.cast_nonneg _

theorem quotient_nonneg (n x : UInt64) : 0 ≤ quotient n x := by
  rw [quotient]
  split_ifs
  · exact div_nonneg (double_nonneg n) (double_nonneg x)
  · exact le_refl _

theorem throughput_nonneg (bytes : UInt64) (duration : ℚ) :
    0 ≤ StatsLog.throughput bytes duration := by
  have hbytes := double_nonneg bytes
  rw [StatsLog.throughput]
  split_ifs <;> positivity

theorem nonNegative_summaryMetrics {stats : ConnectionStats} (h : stats.NonNegative) {count : ℚ}
    (hcount : 0 ≤ count) : ∀ m ∈ summaryMetrics stats count, m.value.NonNegative := by
  have hdouble : ∀ n, 0 ≤ double n / count := fun n => div_nonneg (double_nonneg n) hcount
  simp only [summaryMetrics, List.forall_mem_cons]
  exact ⟨hdouble _, hdouble _, hdouble _, hdouble _, hdouble _, hdouble _, hdouble _,
    h.persistentRatio, h.nonPersistentRatio, div_nonneg h.oneconn2Duration hcount,
    h.throughputMbpsper, h.throughputMbpsnonper, hdouble _, hdouble _, List.forall_mem_nil _⟩

theorem nonNegative_overallMetrics (connectionCount : UInt64) {t : Totals} {clocks : Clocks}
    {rejected : Int} (hconn1 : 0 ≤ timeDiff clocks.conn1Start clocks.conn1End)
    (hconn2 : 0 ≤ t.conn2Duration) (hrejected : 0 ≤ rejected) :
    ∀ m ∈ overallMetrics connectionCount t clocks rejected, m.value.NonNegative := by
  simp only [overallMetrics, List.forall_mem_cons]
  exact ⟨quotient_nonneg _ _, quotient_nonneg _ _, quotient_nonneg _ _, quotient_nonneg _ _,
    quotient_nonneg _ _, hrejected, quotient_nonneg _ _, quotient_nonneg _ _,
    quotient_nonneg _ _, quotient_nonneg _ _, quotient_nonneg _ _, quotient_nonneg _ _,
    hconn1, hconn2, throughput_nonneg _ _, throughput_nonneg _ _, List.forall_mem_nil _⟩

theorem nonNegative_statsInput {x : Run} (hclock : ClockForward x.inputs) :
    (statsInput x).NonNegative := by
  have hfigures := figures_final x hclock
  have hreport := hfigures.report.saveRemaining
  constructor
  · intro s hs
    obtain ⟨i, hi, rfl⟩ := List.mem_map.mp hs
    exact nonNegative_summaryMetrics (hreport.statsArray i (List.mem_range.mp hi))
      (double_nonneg _)
  · exact nonNegative_overallMetrics _ hfigures.conn1.2 hfigures.conn2Duration hfigures.rejected

/-! ## Every run has a log -/

theorem written_statsInput {x : Run} (hfits : x.final.report.connectionCount < 2 ^ 64) :
    ∃ log, writeStatsToFile (statsInput x) = some log := by
  let text (i : Nat) := Lines.terminate '\n' ((statsInput x).summaryAt i).lines
  have htexts : ((List.range (statsInput x).count).mapM fun i =>
      writeSummaryToFile ((statsInput x).statsArray i) (StatsLog.startConn i)
        (StatsLog.endConn (statsInput x).connectionCount i)) =
      some ((List.range (statsInput x).count).map text) := by
    refine mapM_eq_map fun i hi => ?_
    have hi := List.mem_range.mp hi
    let size := connections (StatsLog.startConn i)
      (StatsLog.endConn (statsInput x).connectionCount i)
    -- A group has connections, so its divisor is not 0.
    have hsize : size = (summarized x i).length :=
      congrArg WeightedMeans.Sample.size (group_statsInput hfits ⟨[], fun _ => 0⟩ hi)
    have hpos := (slot_saveRemaining x hi).1
    have hdivisor : size ≠ 0 := by
      rw [hsize]
      exact Nat.cast_ne_zero.mpr hpos.ne'
    exact if_neg hdivisor
  rw [writeStatsToFile, htexts]
  exact ⟨_, rfl⟩

theorem written_runs {xs : List Run}
    (hfits : ∀ x ∈ xs, x.final.report.connectionCount < 2 ^ 64) :
    ∃ logs, List.Forall₂ (fun input log => writeStatsToFile input = some log)
      (xs.map statsInput) logs := by
  induction xs with
  | nil => exact ⟨[], .nil⟩
  | cons x xs ih =>
    obtain ⟨log, hlog⟩ := written_statsInput (hfits x List.mem_cons_self)
    obtain ⟨logs, hlogs⟩ := ih fun y hy => hfits y (List.mem_cons_of_mem x hy)
    exact ⟨log :: logs, .cons hlog hlogs⟩

end ConnectionOrder.Resultexp3
