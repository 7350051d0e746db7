import ConnectionOrder.Rows
import ConnectionOrder.ServerEpx3.State

/-!
# The log that server_epx3 writes at its end

write_summary_to_file and write_stats_to_file. A number that is not finite has no
place in the model: where one would be printed there is no log.
-/

namespace ConnectionOrder.StatsLog

open ServerEpx3 PyText FixedPoint Rows

/-- The argument of one conversion: `%.2f` and `%.6f` of a double, which is exact here and
rounded as such, or `%d`. -/
inductive Number where
  | fixed (places : Nat) (x : ℚ)
  | int (n : Int)

def Number.text : Number → Text
  | .fixed places x => FixedPoint.fixed places x
  | .int n => Scan.decimal n

def Number.printed : Number → ℚ
  | .fixed places x => rounded places x
  | .int n => n

/-- The number before it is rounded to its places. -/
def Number.exact : Number → ℚ
  | .fixed _ x => x
  | .int n => n

/-- One fprintf of a label with its value. -/
structure Metric where
  label : Text
  value : Number
  unit : Text

def Metric.row (m : Metric) : Row := ⟨m.label, m.value.text, m.unit⟩

def double (n : UInt64) : ℚ := n.toNat

def noUnit : Text := []
def sec : Text := " sec".toList
def mbps : Text := " Mbps".toList

/-! ## write_summary_to_file -/

def summaryIndent : Text := "  ".toList

def summaryFor : Text := "Summary for Connections ".toList
def upTo : Text := " to ".toList

/-- `%zu` -/
def size (n : UInt64) : Text := Nat.toDigits 10 n.toNat

def summaryHeader (startConn endConn : UInt64) : Text :=
  summaryFor ++ (size (startConn + 1) ++ (upTo ++ (size endConn ++ [':'])))

def summaryMetrics (stats : ConnectionStats) (count : ℚ) : List Metric :=
  [⟨"Avg Non-persistent count".toList,
      .fixed 2 (double stats.nonPersistentCount / count), noUnit⟩,
    ⟨"Avg Persistent count".toList, .fixed 2 (double stats.persistentCount / count), noUnit⟩,
    ⟨"Avg Total when both present".toList,
      .fixed 2 (double stats.totalWhenBothPresent / count), noUnit⟩,
    ⟨"Avg Only persistent count".toList,
      .fixed 2 (double stats.onlyPersistentCount / count), noUnit⟩,
    ⟨"Avg Only non-persistent count".toList,
      .fixed 2 (double stats.onlyNonPersistentCount / count), noUnit⟩,
    ⟨"Avg Persistent bytes read".toList,
      .fixed 2 (double stats.perTotalBytesRead / count), noUnit⟩,
    ⟨"Avg Non-persistent bytes read".toList,
      .fixed 2 (double stats.nonperTotalBytesRead / count), noUnit⟩,
    ⟨"Avg Persistent ratio".toList, .fixed 2 stats.persistentRatio, noUnit⟩,
    ⟨"Avg Non-persistent ratio".toList, .fixed 2 stats.nonPersistentRatio, noUnit⟩,
    ⟨"Avg Connection 2 duration".toList, .fixed 6 (stats.oneconn2Duration / count), sec⟩,
    ⟨"Avg Throughput Persistent".toList, .fixed 2 stats.throughputMbpsper, mbps⟩,
    ⟨"Avg Throughput Non-Persistent".toList, .fixed 2 stats.throughputMbpsnonper, mbps⟩,
    ⟨"Avg Persistent packets".toList, .fixed 2 (double stats.perPackets / count), noUnit⟩,
    ⟨"Avg Non-Persistent packets".toList, .fixed 2 (double stats.nonperPackets / count), noUnit⟩]

/-- One group of the log. -/
structure Summary where
  startConn : UInt64
  endConn : UInt64
  metrics : List Metric

def Summary.lines (s : Summary) : List Text :=
  summaryHeader s.startConn s.endConn :: s.metrics.map (fun m => m.row.line summaryIndent) ++ [[]]

/-- The difference of two size_t. -/
def connections (startConn endConn : UInt64) : ℚ := double (endConn - startConn)

def summary (stats : ConnectionStats) (startConn endConn : UInt64) : Summary :=
  ⟨startConn, endConn, summaryMetrics stats (connections startConn endConn)⟩

/-- A quotient by a count of 0 is not finite. -/
def writeSummaryToFile (stats : ConnectionStats) (startConn endConn : UInt64) : Option Text :=
  if connections startConn endConn = 0 then none
  else some (Lines.terminate '\n' (summary stats startConn endConn).lines)

/-! ## write_stats_to_file -/

def startConn (i : Nat) : UInt64 := UInt64.ofNat i * UInt64.ofNat summaryInterval

def endConn (connectionCount : UInt64) (i : Nat) : UInt64 :=
  let last := (UInt64.ofNat i + 1) * UInt64.ofNat summaryInterval
  if connectionCount < last then connectionCount else last

/-- `x > 0 ? (double)n / x : 0.0` -/
def quotient (n x : UInt64) : ℚ := if 0 < x then double n / double x else 0

def throughput (bytes : UInt64) (duration : ℚ) : ℚ :=
  if 0 < duration then double bytes * 8 / (duration * 1000000) else 0

def overallHeader : Text := "Overall Statistics (Averaged):".toList

def overallMetrics (connectionCount : UInt64) (t : Totals) (clocks : Clocks) (rejected : Int) :
    List Metric :=
  let oneconn1Duration := timeDiff clocks.conn1Start clocks.conn1End
  [⟨"Average events when both were present".toList,
      .fixed 2 (quotient t.allBoth connectionCount), noUnit⟩,
    ⟨"Average Persistent count".toList,
      .fixed 2 (quotient t.allPersistentCount connectionCount), noUnit⟩,
    ⟨"Average Non-Persistent count".toList,
      .fixed 2 (quotient t.allNonPersistentCount connectionCount), noUnit⟩,
    ⟨"Average Persistent Ratio".toList,
      .fixed 2 (quotient t.allPersistentCount t.allBoth), noUnit⟩,
    ⟨"Average Non-Persistent Ratio".toList,
      .fixed 2 (quotient t.allNonPersistentCount t.allBoth), noUnit⟩,
    ⟨"Rejected connections".toList, .int rejected, noUnit⟩,
    ⟨"Average Only Persistent count".toList,
      .fixed 2 (quotient (t.allOnlyPersistentCount - t.allBoth) connectionCount), noUnit⟩,
    ⟨"Average Only Non Persistent count".toList,
      .fixed 2 (quotient (t.allOnlyNonPersistentCount - t.allBoth) connectionCount), noUnit⟩,
    ⟨"Average persistent bytes per connection".toList,
      .fixed 2 (quotient t.allPerBytes connectionCount), noUnit⟩,
    ⟨"Average non-persistent bytes per connection".toList,
      .fixed 2 (quotient t.allNonperBytes connectionCount), noUnit⟩,
    ⟨"Average persistent packets per connection".toList,
      .fixed 2 (quotient t.allPerpackets connectionCount), noUnit⟩,
    ⟨"Average non-persistent packets per connection".toList,
      .fixed 2 (quotient t.allNonpacktes connectionCount), noUnit⟩,
    ⟨"Total persistent duration".toList, .fixed 6 oneconn1Duration, sec⟩,
    ⟨"Total non-persistent duration".toList, .fixed 6 t.conn2Duration, sec⟩,
    ⟨"Average Throughput Persistent".toList,
      .fixed 2 (throughput t.allPerBytes oneconn1Duration), mbps⟩,
    ⟨"Average Throughput Non-Persistent".toList,
      .fixed 2 (throughput t.allNonperBytes t.conn2Duration), mbps⟩]

/-- What write_stats_to_file is given: its arguments, and the globals that it reads. -/
structure StatsInput where
  statsArray : Nat → ConnectionStats
  count : Nat
  connectionCount : UInt64
  totals : Totals
  clocks : Clocks
  rejected : Int

namespace StatsInput

variable (input : StatsInput)

def summaryAt (i : Nat) : Summary :=
  summary (input.statsArray i) (startConn i) (endConn input.connectionCount i)

def summaries : List Summary := (List.range input.count).map input.summaryAt

def overall : List Metric :=
  overallMetrics input.connectionCount input.totals input.clocks input.rejected

def overallLines : List Text :=
  [] :: overallHeader :: input.overall.map fun m => m.row.line []

end StatsInput

def writeStatsToFile (input : StatsInput) : Option Text :=
  ((List.range input.count).mapM fun i =>
    writeSummaryToFile (input.statsArray i) (startConn i)
      (endConn input.connectionCount i)).map fun texts =>
    texts.flatten ++ Lines.terminate '\n' input.overallLines

/-! ## What can be read back -/

/-- The part of a metric that the program fixes: `places` is `none` for `%d`. -/
structure Format where
  label : Text
  places : Option Nat
  unit : Text

def Number.places : Number → Option Nat
  | .fixed places _ => some places
  | .int _ => none

def Metric.format (m : Metric) : Format := ⟨m.label, m.value.places, m.unit⟩

def summaryFormats : List Format := (summaryMetrics ConnectionStats.zero 0).map Metric.format

def overallFormats : List Format :=
  (overallMetrics 0 Totals.zero ⟨false, false, ⟨0, 0⟩, ⟨0, 0⟩, ⟨0, 0⟩, ⟨0, 0⟩, ⟨0, 0⟩⟩ 0).map
    Metric.format

theorem format_summaryMetrics (stats : ConnectionStats) (count : ℚ) :
    (summaryMetrics stats count).map Metric.format = summaryFormats := by
  simp only [summaryFormats, summaryMetrics, List.map_cons, List.map_nil, Metric.format,
    Number.places]

theorem format_overallMetrics (connectionCount : UInt64) (t : Totals) (clocks : Clocks)
    (rejected : Int) :
    (overallMetrics connectionCount t clocks rejected).map Metric.format = overallFormats := by
  simp only [overallFormats, overallMetrics, List.map_cons, List.map_nil, Metric.format,
    Number.places]

structure Format.Ok (f : Format) : Prop where
  label : LabelOk f.label
  unit : UnitOk f.unit
  places : ∀ places ∈ f.places, 0 < places

instance (f : Format) : Decidable f.Ok :=
  decidable_of_iff (LabelOk f.label ∧ UnitOk f.unit ∧ ∀ places ∈ f.places, 0 < places)
    ⟨fun h => ⟨h.1, h.2.1, h.2.2⟩, fun h => ⟨h.label, h.unit, h.places⟩⟩

def Number.NonNegative : Number → Prop
  | .fixed _ x => 0 ≤ x
  | .int n => 0 ≤ n

instance : (n : Number) → Decidable n.NonNegative
  | .fixed _ x => inferInstanceAs (Decidable (0 ≤ x))
  | .int n => inferInstanceAs (Decidable (0 ≤ n))

/-- No number of the log is negative. -/
structure StatsInput.NonNegative (input : StatsInput) : Prop where
  summaries : ∀ s ∈ input.summaries, ∀ m ∈ s.metrics, m.value.NonNegative
  overall : ∀ m ∈ input.overall, m.value.NonNegative

theorem Metric.row_ok {m : Metric} (hformat : m.format.Ok) : m.row.Ok := by
  refine ⟨hformat.label, ?_, ?_, hformat.unit⟩
  · change m.value.text ≠ []
    cases m.value with
    | fixed places x => exact fixed_ne_nil places x
    | int n => exact decimal_ne_nil n
  · change ∀ c ∈ m.value.text, isSigned c = true
    intro c hc
    cases hvalue : m.value with
    | fixed places x =>
      rw [hvalue] at hc
      exact isSigned_fixed hc
    | int n =>
      rw [hvalue] at hc
      exact isSigned_decimal hc

theorem Metric.float_text {m : Metric} (hformat : m.format.Ok) :
    float m.value.text = some m.value.printed := by
  have hplaces : ∀ places ∈ m.value.places, 0 < places := hformat.places
  cases hvalue : m.value with
  | fixed places x =>
    rw [hvalue] at hplaces
    exact float_fixed (hplaces places rfl) x
  | int n => exact float_decimal n

/-- Only a negative number is printed with a sign. -/
theorem Metric.numeral {m : Metric} (h : m.value.NonNegative) :
    ∀ c ∈ m.row.number, isNumeral c = true := by
  change ∀ c ∈ m.value.text, isNumeral c = true
  intro c hc
  cases hvalue : m.value with
  | fixed places x =>
    rw [hvalue] at h hc
    exact isNumeral_fixed h hc
  | int n =>
    rw [hvalue] at h hc
    exact isNumeral_decimal h hc

theorem mapM_of_some {α β : Type} {f : α → Option β} {g : α → β} {xs : List α} {ys : List β}
    (hf : ∀ x y, f x = some y → y = g x) (h : xs.mapM f = some ys) : ys = xs.map g := by
  induction xs generalizing ys with
  | nil =>
    cases h
    rfl
  | cons x xs ih =>
    rw [List.mapM_cons] at h
    obtain ⟨y, hy, hrest⟩ := Option.bind_eq_some_iff.mp h
    obtain ⟨rest, hmap, hcons⟩ := Option.bind_eq_some_iff.mp hrest
    cases hcons
    rw [hf x y hy, ih hmap, List.map_cons]

theorem terminate_flatMap {α : Type} (xs : List α) (f : α → List Text) :
    (xs.map fun x => Lines.terminate '\n' (f x)).flatten = Lines.terminate '\n' (xs.flatMap f) := by
  rw [Lines.terminate, List.flatMap_assoc, List.flatMap_def]
  rfl

/-- The log, line by line. -/
theorem writeStatsToFile_eq {input : StatsInput} {log : Text}
    (h : writeStatsToFile input = some log) :
    log = Lines.terminate '\n' (input.summaries.flatMap Summary.lines ++ input.overallLines) := by
  obtain ⟨texts, htexts, hlog⟩ := Option.map_eq_some_iff.mp h
  have hsummaries : texts = (List.range input.count).map fun i =>
      Lines.terminate '\n' (input.summaryAt i).lines := by
    refine mapM_of_some (fun i text htext => ?_) htexts
    rw [writeSummaryToFile] at htext
    split at htext
    · cases htext
    · cases htext
      rfl
  rw [← hlog, hsummaries, terminate_flatMap, StatsInput.summaries, List.flatMap_map,
    Lines.terminate, Lines.terminate, Lines.terminate, List.flatMap_append]

end ConnectionOrder.StatsLog
