import ConnectionOrder.EmpiricalCdf
import ConnectionOrder.Outputexp2.Cdf
import ConnectionOrder.ServerExp2.Clients

/-!
# From the runs of the server to the curve

serverexp2 prints its report, server_Script keeps it in the file of the runs, and cdf draws
what it reads there. The average in the summary becomes a point of the curve.
-/

namespace ConnectionOrder.Outputexp2.Cdf

open PyText FixedPoint Patterns ServerScript ServerExp2 EmpiricalCdf

/-- The curve of socket1_ratios, `none` where there is nothing to plot; that of
socket2_ratios is not drawn. -/
def plotCdf (socket1Ratios socket2Ratios : List ℚ) : Option (List (ℚ × ℚ)) :=
  if socket1Ratios = [] ∨ socket2Ratios = [] then none else some (points socket1Ratios)

def main (file : Option Text) : Option (Option (List (ℚ × ℚ))) :=
  (parseRatios file).map fun ratios => plotCdf ratios.1 ratios.2

/-! ## The report in one piece -/

theorem cut_terminate {lines : List Text} (h : ∀ line ∈ lines, cutText separator line = none) :
    cutText separator (Lines.terminate '\n' lines) = none := by
  induction lines with
  | nil => rfl
  | cons line lines ih =>
    have hne : separator ≠ [] := by decide
    have hstop : '\n' ∉ separator := by decide
    rw [Lines.terminate_cons, cutText_stop_none hne hstop (h line List.mem_cons_self),
      ih fun line' hline' => h line' (List.mem_cons_of_mem line hline')]
    rfl

theorem count_fixed (places : Nat) (x : ℚ) : (fixed places x).count '-' ≤ 1 := by
  have hgroups : '-' ∉ wholeDigits places (scaled places x) ++
      '.' :: placeDigits places (scaled places x) := fun hmem => by cases isNumeral_groups hmem
  rw [fixed, List.count_append, List.count_eq_zero_of_not_mem hgroups]
  split <;> decide

theorem count_decimal (n : Int) : (Scan.decimal n).count '-' ≤ 1 := by
  have hdigits : ∀ m, (Nat.toDigits 10 m).count '-' = 0 :=
    fun m => List.count_eq_zero_of_not_mem fun hmem => by cases Scan.isDigit_toDigits hmem
  rw [Scan.decimal]
  split
  · rw [List.count_cons, hdigits]
    decide
  · rw [hdigits]
    decide

theorem count_figure (f : Figure) : f.text.count '-' ≤ 1 := by
  cases f with
  | int n => exact count_decimal n
  | double places x =>
    cases x with
    | finite x => exact count_fixed places x
    | infinite negative | nan negative =>
      cases negative with
      | true | false => exact of_decide_eq_true rfl

/-- A line of the report has at most one dash. -/
theorem cut_line {nanSign : Bool} {c : Counters} {k : Clocks} {l : ReportLine}
    (hl : l ∈ reportLines nanSign c k) : cutText separator l.text = none := by
  have hplain : ∀ p ∈ linePatterns, p.label.count '-' = 0 ∧ p.unit.count '-' = 0 := by decide
  obtain ⟨hlabel, hunit⟩ := hplain _ (pattern_mem hl)
  have hlabel : l.label.count '-' = 0 := hlabel
  have hunit : l.unit.count '-' = 0 := hunit
  have hequals : equals.count '-' = 0 := by decide
  have hfigure := count_figure l.figure
  have hmarks : separator.count '-' = 24 := by decide
  apply cutText_eq_none_of_count '-'
  rw [ReportLine.text, List.count_append, List.count_append, List.count_append, hlabel, hunit,
    hequals, hmarks]
  omega

theorem forall_printed {P : Text → Prop} {nanSign : Bool} {c : Counters} {k : Clocks}
    (hheading : ∀ line ∈ heading, P line) (hlines : ∀ l ∈ reportLines nanSign c k, P l.text) :
    ∀ line ∈ printOrderRatio nanSign c k, P line := by
  intro line hline
  rw [reportLines, List.append_assoc] at hlines
  rw [printOrderRatio, List.mem_append, List.mem_append, List.mem_map, List.mem_map] at hline
  rcases hline with (⟨l, hl, rfl⟩ | hline) | ⟨l, hl, rfl⟩
  · exact hlines l (List.mem_append_left _ hl)
  · exact hheading line hline
  · exact hlines l (List.mem_append_right _ hl)

theorem cut_report (nanSign : Bool) (c : Counters) (k : Clocks) :
    cutText separator (Lines.terminate '\n' (printOrderRatio nanSign c k)) = none := by
  have hheading : ∀ line ∈ heading, cutText separator line = none := by decide
  exact cut_terminate (forall_printed hheading fun l hl => cut_line hl)

theorem return_report (nanSign : Bool) (c : Counters) (k : Clocks) :
    '\x0d' ∉ Lines.terminate '\n' (printOrderRatio nanSign c k) := by
  have hplain : ∀ p ∈ linePatterns, '\x0d' ∉ p.label ∧ '\x0d' ∉ p.unit := by decide
  have hheading : ∀ line ∈ heading, '\x0d' ∉ line := by decide
  have hlines : ∀ l ∈ reportLines nanSign c k, '\x0d' ∉ l.text := by
    intro l hl
    obtain ⟨hlabel, hunit⟩ := hplain _ (pattern_mem hl)
    have hequals : '\x0d' ∉ equals := by decide
    have hfigure : '\x0d' ∉ l.figure.text := notMem_text rfl (by decide) l.figure
    rw [ReportLine.text, List.mem_append, List.mem_append, List.mem_append]
    rintro (hmem | hmem | hmem | hmem)
    · exact hlabel hmem
    · exact hequals hmem
    · exact hfigure hmem
    · exact hunit hmem
  intro hmem
  obtain ⟨line, hline, hmem⟩ := List.mem_flatMap.mp hmem
  rcases List.mem_append.mp hmem with hmem | hmem
  · exact forall_printed hheading hlines line hline hmem
  · cases List.mem_singleton.mp hmem

section Reports

variable {r : Ratio} (hr : r.Ok)
include hr

theorem samples_before {before : List Text} (h : ∀ line ∈ before, ¬equals <:+: line) (s : Text) :
    samples r.pattern (textMode (Lines.terminate '\n' before ++ s)) =
      samples r.pattern (textMode s) := by
  induction before with
  | nil => rfl
  | cons line before ih =>
    obtain ⟨line', hmode, hwords⟩ :=
      textMode_line line (Lines.terminate '\n' before ++ s)
    have hplain : ¬equals <:+: line' := fun hinside =>
      h line List.mem_cons_self ((hwords equals (by decide)).2 hinside)
    rw [Lines.terminate_cons, List.append_assoc, List.cons_append, hmode, samples,
      found_plain hr.ok.stops (by decide) hplain]
    exact ih fun line' hline' => h line' (List.mem_cons_of_mem line hline')

/-- The output of a run has the one sample that the first match is. -/
theorem samples_output (o : Output) :
    samples r.pattern (textMode o.text) = (r.pattern.search (textMode o.text)).toList := by
  have hone : samples r.pattern (textMode o.text) =
      (r.pattern.search (Lines.terminate '\n'
        (printOrderRatio o.nanSign o.counters o.clocks))).toList := by
    rw [Output.text, Lines.terminate, List.flatMap_append, ← Lines.terminate, ← Lines.terminate,
      samples_before hr o.plain,
      textMode_eq (return_report _ _ _), samples, found_none (separator_eq ▸ cut_report _ _ _)]
  have hhead : (samples r.pattern (textMode o.text)).head? = r.pattern.search (textMode o.text) :=
    head_found (stops_dash hr) _
  rw [← hhead, hone]
  cases r.pattern.search _ <;> rfl

end Reports

/-! ## The ratio of a run -/

/-- The ratio that a report prints, where there were pairs. -/
def printedRatio (c : Counters) (before : Int) : Option ℚ :=
  let total : ℚ := (c.socket1BeforeSocket2 + c.socket2BeforeSocket1 : Int)
  if total = 0 then none else some (rounded 6 (before / total))

def Counts (r : Ratio) (before : Counters → Int) : Prop :=
  ∀ o : Output, o.figure? r.param.name =
    some (.double 6 (orderRatio o.nanSign o.counters (before o.counters)))

theorem socket1_counts : Counts socket1Ratio Counters.socket1BeforeSocket2 := fun _ => rfl

theorem socket2_counts : Counts socket2Ratio Counters.socket2BeforeSocket1 := fun _ => rfl

section Counts

variable {r : Ratio} (hr : r.Ok) {before : Counters → Int} (hcounts : Counts r before)
variable {o : Output} (h : o.NonNegative) (hbefore : 0 ≤ before o.counters)
include hr hcounts h

theorem value_reported :
    r.param.value (textMode o.text) = printedRatio o.counters (before o.counters) := by
  rw [value_output hr.param h, Output.number?, hcounts, Option.bind_some, orderRatio, divide,
    printedRatio]
  split
  · split <;> rfl
  · rfl

include hbefore in
theorem samples_reported : (samples r.pattern (textMode o.text)).filterMap float =
    (printedRatio o.counters (before o.counters)).toList := by
  have htotal : (0 : ℚ) ≤
      (o.counters.socket1BeforeSocket2 + o.counters.socket2BeforeSocket1 : Int) :=
    Int.cast_nonneg (Int.add_nonneg h.first h.second)
  have hsearch := search_finite hr.param h
  rw [hcounts, Option.bind_some, orderRatio, divide] at hsearch
  rw [samples_output hr, printedRatio]
  split at hsearch
  · rename_i hzero
    have hnone : r.param.pattern.search (textMode o.text) = none := by
      rw [hsearch]
      split <;> rfl
    have hfraction := search_param hr fun _ hgroup => by
      cases hnone.symm.trans hgroup
    rw [hfraction, hnone, if_pos hzero]
    rfl
  · rename_i hpairs
    have hratio : (0 : ℚ) ≤ before o.counters /
        (o.counters.socket1BeforeSocket2 + o.counters.socket2BeforeSocket1 : Int) :=
      div_nonneg (Int.cast_nonneg hbefore) htotal
    have hfraction := search_param hr fun group hgroup => by
      cases hsearch.symm.trans hgroup
      exact matches_fixed hratio
    rw [hfraction, hsearch, if_neg hpairs]
    exact List.filterMap_cons_some (float_fixed (by decide) _)

end Counts

def printed (before : Counters → Int) (runs : List (Option Output)) : List ℚ :=
  (runs.filterMap id).filterMap fun o => printedRatio o.counters (before o.counters)

def printedAverage (ratios : List ℚ) : ℚ := rounded 6 (ratios.sum / ratios.length)

def withAverage (ratios : List ℚ) : List ℚ :=
  ratios ++ if ratios = [] then [] else [printedAverage ratios]

theorem withAverage_eq_nil_iff {ratios : List ℚ} : withAverage ratios = [] ↔ ratios = [] := by
  rw [withAverage, List.append_eq_nil_iff]
  exact and_iff_left_of_imp fun hnil => if_pos hnil

theorem plotCdf_withAverage {ratios ratios' : List ℚ} (h : ratios = [] ↔ ratios' = []) :
    plotCdf (withAverage ratios) (withAverage ratios') =
      if ratios = [] then none else some (points (withAverage ratios)) := by
  simp only [plotCdf, withAverage_eq_nil_iff, ← h, or_self]

/-- The values that are read for a ratio: one for each report with pairs, and their average. -/
theorem values_reported {r : Ratio} (hr : r.Ok) {before : Counters → Int}
    (hcounts : Counts r before) {runs : List (Option Output)}
    (h : ∀ o, some o ∈ runs → o.NonNegative ∧ 0 ≤ before o.counters) :
    r.values (runs.map (Option.map Output.text)) = withAverage (printed before runs) := by
  have hmem : ∀ o ∈ runs.filterMap id, o.NonNegative ∧ 0 ≤ before o.counters := by
    intro o ho
    obtain ⟨run, hrun, hid⟩ := List.mem_filterMap.mp ho
    exact h o (hid ▸ hrun)
  have hparams : (outputs (runs.map (Option.map Output.text))).filterMap r.param.value =
      printed before runs := by
    rw [outputs_texts, List.filterMap_map, printed]
    exact List.filterMap_congr fun o ho => value_reported hr hcounts (hmem o ho).1
  have hsamples : ((outputs (runs.map (Option.map Output.text))).flatMap fun output =>
      (samples r.pattern output).filterMap float) = printed before runs := by
    rw [outputs_texts, List.flatMap_map]
    refine (List.flatMap_congr fun o ho => ?_).trans (List.filterMap_eq_flatMap_toList _ _).symm
    exact samples_reported hr hcounts (hmem o ho).1 (hmem o ho).2
  obtain ⟨hsum, hcount⟩ := totals_runAll hr.param (runs.map (Option.map Output.text))
  rw [hparams] at hsum hcount
  rw [Ratio.values, hsamples, average, hsum, hcount, withAverage, printedAverage]
  congr 1
  cases printed before runs with
  | nil => rfl
  | cons ratio ratios => rfl

/-! ## Whole experiments -/

/-- A run of serverexp2, and what it printed before the report. -/
structure Experiment where
  run : ServerExp2.Run
  before : List Text
  nanSign : Bool
  plain : ∀ line ∈ before, ¬equals <:+: line

namespace Experiment

variable (e : Experiment)

def counters : Counters := e.run.final.counters

def output : Output := ⟨e.before, e.nanSign, e.counters, e.run.final.clocks, e.plain⟩

/-- The clock was not set back while a connection was measured. -/
def Forward : Prop :=
  0 ≤ conn1Duration e.run.final.clocks ∧ 0 ≤ conn2Duration e.run.final.clocks

theorem nonNegative_output (h : e.Forward) : e.output.NonNegative :=
  nonNegative_final e.run h.1 h.2

end Experiment

def ratios (before : Counters → Int) (experiments : List (Option Experiment)) : List ℚ :=
  (experiments.filterMap id).filterMap fun e => printedRatio e.counters (before e.counters)

theorem ratios_eq (before : Counters → Int) (experiments : List (Option Experiment)) :
    printed before (experiments.map (Option.map Experiment.output)) =
      ratios before experiments := by
  rw [printed, ratios, List.filterMap_map]
  have houtputs : experiments.filterMap (id ∘ Option.map Experiment.output) =
      (experiments.filterMap id).map Experiment.output := by
    rw [List.map_filterMap]
    rfl
  rw [houtputs, List.filterMap_map]
  rfl

theorem ratios_eq_nil_iff (before before' : Counters → Int)
    (experiments : List (Option Experiment)) :
    ratios before experiments = [] ↔ ratios before' experiments = [] := by
  rw [ratios, ratios, List.filterMap_eq_nil_iff, List.filterMap_eq_nil_iff]
  refine forall₂_congr fun e _ => ?_
  rw [printedRatio, printedRatio, ite_eq_left_iff, ite_eq_left_iff]
  exact imp_congr_right fun _ => iff_of_false (Option.some_ne_none _) (Option.some_ne_none _)

/-- The file that the script leaves behind the experiments. -/
def experimentFile (experiments : List (Option Experiment)) : Text :=
  outputFile (experiments.map (Option.map fun e => e.output.text))

theorem values_experiments {r : Ratio} (hr : r.Ok) {before : Counters → Int}
    (hcounts : Counts r before) {experiments : List (Option Experiment)}
    (h : ∀ e, some e ∈ experiments → e.Forward)
    (hbefore : ∀ c k, NonNegative c k → 0 ≤ before c) :
    r.values (experiments.map (Option.map fun e => e.output.text)) =
      withAverage (ratios before experiments) := by
  have hreports : ∀ o, some o ∈ experiments.map (Option.map Experiment.output) →
      o.NonNegative ∧ 0 ≤ before o.counters := by
    intro o ho
    obtain ⟨run, hrun, heq⟩ := List.mem_map.mp ho
    obtain ⟨e, rfl, rfl⟩ := Option.map_eq_some_iff.mp heq
    have hnonneg := e.nonNegative_output (h e hrun)
    exact ⟨hnonneg, hbefore _ _ hnonneg⟩
  have hvalues := values_reported hr hcounts hreports
  rw [List.map_map, Option.map_comp_map, ratios_eq] at hvalues
  exact hvalues

/-- Two clients connect, and the data of the second one follows that of the first. -/
def onePair : List ServerExp2.Input :=
  let quiet : Fin 5 → Timeval := fun _ => ⟨0, 0⟩
  [.wait (some [3]), .event ⟨some 4, true, true, .again, quiet⟩, .wait (some [3]),
    .event ⟨some 5, true, true, .again, quiet⟩, .wait (some [4, 5]),
    .event ⟨none, true, true, .data chunkOne, quiet⟩,
    .event ⟨none, true, true, .data chunkOne, quiet⟩]

theorem permitted_onePair :
    Machine.Along ServerExp2.step ServerExp2.Permitted (ServerExp2.start 3) onePair := by decide

def onePairRun : ServerExp2.Run := ⟨ServerExp2.start 3, onePair, initial_start3, permitted_onePair⟩

def listening : List Text := ["Server listening on port 8080".toList]

theorem listening_plain : ∀ line ∈ listening, ¬equals <:+: line := by decide

def onePairExperiment : Experiment := ⟨onePairRun, listening, true, listening_plain⟩

end ConnectionOrder.Outputexp2.Cdf
