import ConnectionOrder.Outputexp2.ServerScript
import ConnectionOrder.ServerExp2.Report

/-!
# The patterns of the script on the report of the server

Every pattern of PARAMS is made for one line of the report, and no label is the end of
another one, so that each finds the figure of its own line or nothing. The averages are
over the runs that printed a number.
-/

namespace ConnectionOrder.Outputexp2.ServerScript

open PyText FixedPoint Patterns ServerExp2

/-- What a run prints: lines without an equals sign between blanks, and the report. -/
structure Output where
  before : List Text
  nanSign : Bool
  counters : Counters
  clocks : Clocks
  plain : ∀ line ∈ before, ¬equals <:+: line

namespace Output

variable (o : Output)

def text : Text :=
  Lines.terminate '\n' (o.before ++ printOrderRatio o.nanSign o.counters o.clocks)

/-- The figure that the report has for a parameter, where it has its line. -/
def figure? (name : Text) : Option Figure :=
  ServerExp2.figure? name (reportLines o.nanSign o.counters o.clocks)

/-- The number that is printed for a parameter, where it is finite. -/
def number? (name : Text) : Option ℚ := (o.figure? name).bind Figure.finite?

def NonNegative : Prop := ServerExp2.NonNegative o.counters o.clocks

end Output

theorem params_patterns :
    ∀ param ∈ params, param.pattern ∈ linePatterns ∧ param.pattern.label = param.name := by decide

section Search

variable {param : Param} (hparam : param ∈ params)
include hparam

theorem stops_return : Stops param.pattern '\x0d' := by
  have hplain : ∀ p ∈ linePatterns, '\x0d' ∉ p.label ++ equals ∧ '\x0d' ∉ p.unit := by decide
  obtain ⟨hlabel, hunit⟩ := hplain _ (params_patterns param hparam).1
  exact ⟨hlabel, rfl, hunit⟩

theorem search_output (o : Output) : param.pattern.search (textMode o.text) =
    (o.figure? param.name).bind Figure.unsignedText? := by
  obtain ⟨hpattern, hname⟩ := params_patterns param hparam
  have hline := (linePatterns_ok _ hpattern).stops
  have hmode := search_textMode (stops_return hparam) hline [] o.text
  rw [List.nil_append, List.nil_append] at hmode
  rw [hmode, Output.figure?, ← hname]
  exact search_report hpattern o.plain o.nanSign o.counters o.clocks

end Search

theorem figure?_mem {o : Output} {name : Text} {f : Figure} (h : o.figure? name = some f) :
    ∃ l ∈ reportLines o.nanSign o.counters o.clocks, l.figure = f := by
  obtain ⟨l, hl, hfigure⟩ := Option.map_eq_some_iff.mp h
  exact ⟨l, List.mem_of_find?_eq_some hl, hfigure⟩

theorem float_figure {f : Figure} (hplaces : 0 < f.places) {x : ℚ} (h : f.unsigned? = some x) :
    float f.text = some x := by
  cases f with
  | int n =>
    rw [Figure.unsigned?, Option.ite_none_left_eq_some] at h
    rw [← h.2]
    exact float_decimal n
  | double places x =>
    cases x with
    | finite x =>
      rw [Figure.unsigned?, Option.ite_none_left_eq_some] at h
      rw [← h.2]
      exact float_fixed hplaces x
    | infinite negative | nan negative => cases h

theorem search_finite {param : Param} (hparam : param ∈ params) {o : Output} (h : o.NonNegative) :
    param.pattern.search (textMode o.text) =
      (o.figure? param.name).bind fun f => f.finite?.map fun _ => f.text := by
  rw [search_output hparam]
  cases hfigure : o.figure? param.name with
  | none => rfl
  | some f =>
    obtain ⟨l, hl, rfl⟩ := figure?_mem hfigure
    rw [Option.bind_some, Option.bind_some, Figure.unsignedText?, unsigned_report o.nanSign h l hl]

theorem value_output {param : Param} (hparam : param ∈ params) {o : Output} (h : o.NonNegative) :
    param.value (textMode o.text) = o.number? param.name := by
  rw [Param.value, search_finite hparam h, Output.number?]
  cases hfigure : o.figure? param.name with
  | none => rfl
  | some f =>
    obtain ⟨l, hl, rfl⟩ := figure?_mem hfigure
    rw [Option.bind_some, Option.bind_some]
    cases hvalue : l.figure.finite? with
    | none => rfl
    | some x => exact float_figure (places_pos hl) ((unsigned_report o.nanSign h l hl).trans hvalue)

/-! ## A report is complete output -/

theorem expected_text (o : Output) : expected <:+: o.text := by
  rw [Output.text, printOrderRatio, throughputLines, List.map_cons, List.cons_append,
    List.cons_append, Lines.terminate, List.flatMap_append, List.flatMap_cons, ReportLine.text]
  refine List.IsInfix.trans ?_ (List.suffix_append _ _).isInfix
  rw [List.append_assoc, List.append_assoc]
  exact (List.prefix_append _ _).isInfix

theorem output?_text (o : Output) : output? (some o.text) = some (textMode o.text) := by
  have hplain : '\x0d' ∉ expected := by decide
  have hinside := textMode_inside hplain (expected_text o)
  rw [output?, Option.bind_some]
  exact if_pos (cutText_isSome (by decide) hinside)

theorem outputs_texts (runs : List (Option Output)) : outputs (runs.map (Option.map Output.text)) =
    (runs.filterMap id).map fun o => textMode o.text := by
  induction runs with
  | nil => rfl
  | cons run runs ih =>
    rw [List.map_cons, outputs, List.filterMap_cons, ← outputs, ih]
    cases run with
    | none => rfl
    | some o =>
      rw [Option.map_some, output?_text]
      rfl

/-! ## The averages -/

/-- What is printed as a number in the runs that ended with a report. -/
def numbers (runs : List (Option Output)) (name : Text) : List ℚ :=
  (runs.filterMap id).filterMap fun o => o.number? name

/-- Each pattern finds the figure of its own line, where that is a number without a sign;
the averages are those of the runs that printed a number. -/
theorem params_read {param : Param} (hparam : param ∈ params) :
    (∀ o : Output, param.pattern.search (textMode o.text) =
      (o.figure? param.name).bind Figure.unsignedText?) ∧
    (∀ o : Output, o.NonNegative → param.pattern.search (textMode o.text) =
      (o.figure? param.name).bind fun f => f.finite?.map fun _ => f.text) ∧
    ∀ runs : List (Option Output), (∀ o, some o ∈ runs → o.NonNegative) →
      let s := runAll (runs.map (Option.map Output.text))
      s.paramSums param.name = (numbers runs param.name).sum ∧
      s.paramCounts param.name = (numbers runs param.name).length ∧
      average s param.name = (numbers runs param.name).sum / (numbers runs param.name).length := by
  refine ⟨search_output hparam, fun _ h => search_finite hparam h, fun runs hruns => ?_⟩
  have hvalues : (outputs (runs.map (Option.map Output.text))).filterMap param.value =
      numbers runs param.name := by
    rw [outputs_texts, List.filterMap_map, numbers]
    refine List.filterMap_congr fun o ho => value_output hparam (hruns o ?_)
    obtain ⟨run, hrun, hid⟩ := List.mem_filterMap.mp ho
    exact hid ▸ hrun
  obtain ⟨hsum, hcount⟩ := totals_runAll hparam (runs.map (Option.map Output.text))
  rw [hvalues] at hsum hcount
  exact ⟨hsum, hcount, by rw [average, hsum, hcount]⟩

/-- Three pairs in one order and one in the other. -/
def busyRun : Output where
  before := ["Server listening on port 8080".toList]
  nanSign := true
  counters := ⟨3, 1, 4, 5, 6, 4800, 2400, 2400, 40, 40⟩
  clocks := ⟨true, true, ⟨10, 0⟩, ⟨12, 0⟩, ⟨11, 0⟩, ⟨12, 500000⟩⟩
  plain := by decide

/-- No data at all: no order was counted and no time passed. -/
def idleRun : Output where
  before := []
  nanSign := true
  counters := Counters.zero
  clocks := ⟨false, false, ⟨0, 0⟩, ⟨0, 0⟩, ⟨0, 0⟩, ⟨0, 0⟩⟩
  plain := by decide

theorem params_read_twoRuns :
    firstRatio.pattern.search (textMode busyRun.text) = some "0.750000".toList ∧
    firstRatio.pattern.search (textMode idleRun.text) = none ∧
    average (runAll [some busyRun.text, none, some idleRun.text]) firstRatio.name = 3 / 4 := by
  have hparam : firstRatio ∈ params := by decide
  have hbusy : busyRun.NonNegative := by constructor <;> with_unfolding_all decide
  have hidle : idleRun.NonNegative := by constructor <;> with_unfolding_all decide
  obtain ⟨_, hfound, haverages⟩ := params_read hparam
  have hruns : ∀ o, some o ∈ [some busyRun, none, some idleRun] → o.NonNegative := by
    intro o ho
    rw [List.mem_cons, List.mem_cons, List.mem_singleton] at ho
    rcases ho with heq | heq | heq
    · exact Option.some_inj.mp heq ▸ hbusy
    · cases heq
    · exact Option.some_inj.mp heq ▸ hidle
  refine ⟨(hfound busyRun hbusy).trans (by with_unfolding_all decide),
    (hfound idleRun hidle).trans (by with_unfolding_all decide), ?_⟩
  refine (haverages [some busyRun, none, some idleRun] hruns).2.2.trans ?_
  with_unfolding_all decide

end ConnectionOrder.Outputexp2.ServerScript
