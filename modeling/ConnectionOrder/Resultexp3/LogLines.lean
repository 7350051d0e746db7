import ConnectionOrder.Resultexp3.Decoders
import ConnectionOrder.ServerEpx3.StatsLog

/-!
# The lines of a stats log in front of a reader

Which lines begin a group, which one ends the groups, and which ones hold a metric.
-/

namespace ConnectionOrder.Resultexp3

open PyText FixedPoint PyDict Rows StatsLog

/-- The label begins neither like the header of a group nor like that of the overall
statistics. -/
def Unmarked (label : Text) : Prop := label.head? ≠ some 'S' ∧ label.head? ≠ some 'O'

instance (label : Text) : Decidable (Unmarked label) := inferInstanceAs (Decidable (_ ∧ _))

/-- The ends of lines, and a character of the delimiter that no metric has. -/
def marks : Text := ['\n', '\x0d', '(']

/-- No mark in the text, whatever else is in it. -/
def Unmarred (s : Text) : Prop := ∀ c ∈ marks, c ∉ s

instance (s : Text) : Decidable (Unmarred s) := inferInstanceAs (Decidable (∀ c ∈ marks, c ∉ s))

/-- A metric whose line can be read back. -/
structure Readable (m : Metric) : Prop where
  ok : m.row.Ok
  float : float m.value.text = some m.value.printed
  unmarked : Unmarked m.label
  label : Unmarred m.label
  unit : Unmarred m.unit

def readableFormat (f : Format) : Bool :=
  decide (f.Ok ∧ Unmarked f.label ∧ Unmarred f.label ∧ Unmarred f.unit)

theorem summaryFormats_readable : summaryFormats.all readableFormat = true := by decide

theorem overallFormats_readable : overallFormats.all readableFormat = true := by decide

theorem readable_of_format {formats : List Format} (hall : formats.all readableFormat = true)
    {ms : List Metric} (hformats : ms.map Metric.format = formats) : ∀ m ∈ ms, Readable m := by
  intro m hm
  have hmem : m.format ∈ formats := hformats ▸ List.mem_map_of_mem hm
  obtain ⟨hok, hunmarked, hlabel, hunit⟩ :=
    of_decide_eq_true (List.all_eq_true.mp hall m.format hmem)
  exact ⟨Metric.row_ok hok, Metric.float_text hok, hunmarked, hlabel, hunit⟩

theorem formats_summaries (input : StatsInput) :
    ∀ s ∈ input.summaries, s.metrics.map Metric.format = summaryFormats := by
  intro s hs
  obtain ⟨i, _, rfl⟩ := List.mem_map.mp hs
  exact format_summaryMetrics _ _

theorem readable_summaries (input : StatsInput) :
    ∀ s ∈ input.summaries, ∀ m ∈ s.metrics, Readable m :=
  fun s hs => readable_of_format summaryFormats_readable (formats_summaries input s hs)

theorem readable_overall (input : StatsInput) : ∀ m ∈ input.overall, Readable m :=
  readable_of_format overallFormats_readable (format_overallMetrics _ _ _ _)

/-! ## Headers -/

theorem startsWith_of_head {c : Char} {word s : Text} (hword : word.head? = some c)
    (h : s.head? ≠ some c) : startsWith word s = false := by
  apply not_startsWith
  rintro ⟨rest, rfl⟩
  rw [List.head?_append, hword, Option.some_or] at h
  exact h rfl

theorem startsWith_append (word s : Text) : startsWith word (word ++ s) = true :=
  List.isPrefixOf_iff_prefix.mpr (List.prefix_append word s)

theorem strip_line {s : Text} (hne : s ≠ []) (h : Trimmed s) : strip (s ++ ['\n']) = s :=
  strip_padded (fun _ hc => absurd hc List.not_mem_nil) (by decide) hne h

theorem head_summaryHeader (a b : UInt64) : (summaryHeader a b).head? = some 'S' := by
  have hfirst : summaryFor.head? = some 'S' := by decide
  rw [summaryHeader, List.head?_append, hfirst, Option.some_or]

theorem getLast_summaryHeader (a b : UInt64) : (summaryHeader a b).getLast? = some ':' := by
  rw [summaryHeader, List.getLast?_append, List.getLast?_append, List.getLast?_append,
    List.getLast?_append, List.getLast?_singleton, Option.some_or, Option.some_or, Option.some_or,
    Option.some_or]

theorem summaryHeader_ne_nil (a b : UInt64) : summaryHeader a b ≠ [] := by
  intro hnil
  have hhead := head_summaryHeader a b
  rw [hnil] at hhead
  cases hhead

theorem strip_summaryHeader (a b : UInt64) :
    strip (summaryHeader a b ++ ['\n']) = summaryHeader a b := by
  refine strip_line (summaryHeader_ne_nil a b) ⟨?_, ?_⟩
  · intro c hc
    rw [head_summaryHeader] at hc
    cases hc
    rfl
  · intro c hc
    rw [getLast_summaryHeader] at hc
    cases hc
    rfl

theorem strip_overallHeader : strip (overallHeader ++ ['\n']) = overallHeader := by
  decide

/-! ## The whole log -/

theorem unmarred_line {m : Metric} (h : Readable m) {indent : Text} (hindent : Unmarred indent) :
    Unmarred (m.row.line indent) := by
  intro c hc
  have hplain : isSigned c = false ∧ c ≠ ':' ∧ c ≠ ' ' := by
    simp only [marks, List.mem_cons, List.not_mem_nil, or_false] at hc
    rcases hc with rfl | rfl | rfl <;> decide
  exact h.ok.notMem_line hplain.1 hplain.2.1 hplain.2.2 (hindent c hc) (h.label c hc) (h.unit c hc)

theorem unmarred_summaryHeader (a b : UInt64) : Unmarred (summaryHeader a b) := by
  have hfor : Unmarred summaryFor := by decide
  have hto : Unmarred upTo := by decide
  intro c hc
  have hdigit : ∀ n : UInt64, c ∉ size n := by
    intro n hmem
    have hc' : c.isDigit = true := Scan.isDigit_toDigits hmem
    simp only [marks, List.mem_cons, List.not_mem_nil, or_false] at hc
    rcases hc with rfl | rfl | rfl <;> cases hc'
  have hcolon : c ≠ ':' := by
    rintro rfl
    revert hc
    decide
  simp only [summaryHeader, List.mem_append, List.mem_singleton, not_or]
  exact ⟨hfor c hc, hdigit _, hto c hc, hdigit _, hcolon⟩

theorem unmarred_summary {s : Summary} (h : ∀ m ∈ s.metrics, Readable m) :
    ∀ line ∈ s.lines, Unmarred line := by
  have hindent : Unmarred summaryIndent := by decide
  intro line hline
  simp only [Summary.lines, List.cons_append, List.mem_cons, List.mem_append, List.mem_map,
    List.not_mem_nil, or_false] at hline
  rcases hline with rfl | ⟨m, hm, rfl⟩ | rfl
  · exact unmarred_summaryHeader _ _
  · exact unmarred_line (h m hm) hindent
  · exact fun c _ => List.not_mem_nil

theorem line_ends_notMem (input : StatsInput) :
    ∀ line ∈ input.summaries.flatMap Summary.lines ++ input.overallLines,
      '\n' ∉ line ∧ '\x0d' ∉ line := by
  have hunmarred : ∀ line : Text, Unmarred line → '\n' ∉ line ∧ '\x0d' ∉ line :=
    fun line hline => ⟨hline _ (by decide), hline _ (by decide)⟩
  have hheader : '\n' ∉ overallHeader ∧ '\x0d' ∉ overallHeader := by decide
  intro line hline
  simp only [List.mem_append, List.mem_flatMap, StatsInput.overallLines, List.mem_cons,
    List.mem_map] at hline
  rcases hline with ⟨s, hs, hline⟩ | rfl | rfl | ⟨m, hm, rfl⟩
  · exact hunmarred line (unmarred_summary (readable_summaries input s hs) line hline)
  · exact ⟨List.not_mem_nil, List.not_mem_nil⟩
  · exact hheader
  · exact hunmarred _ (unmarred_line (readable_overall input m hm) fun c _ => List.not_mem_nil)

section Log

variable {input : StatsInput} {log : Text} (hlog : writeStatsToFile input = some log)
include hlog

theorem textMode_log : textMode log =
    Lines.terminate '\n' (input.summaries.flatMap Summary.lines ++ input.overallLines) := by
  rw [writeStatsToFile_eq hlog]
  apply textMode_eq
  rw [Lines.terminate, List.mem_flatMap]
  rintro ⟨line, hline, hmem⟩
  rw [List.mem_append, List.mem_singleton] at hmem
  rcases hmem with hmem | hmem
  · exact (line_ends_notMem input line hline).2 hmem
  · exact absurd hmem (by decide)

theorem readlines_log : readlines (textMode log) =
    (input.summaries.flatMap Summary.lines).map (· ++ ['\n']) ++
      input.overallLines.map (· ++ ['\n']) := by
  rw [textMode_log hlog,
    readlines_terminate fun line hline => (line_ends_notMem input line hline).1, List.map_append]

end Log

/-! ## Dictionaries -/

/-- What a reader should make of the metrics of a group. -/
def dictionary {α : Type} (key : Text → Text) (value : ℚ → α) (ms : List Metric) : Dict Text α :=
  ms.map fun m => (key m.label, value m.value.printed)

theorem keys_dictionary {α : Type} (key : Text → Text) (value : ℚ → α) (ms : List Metric) :
    keys (dictionary key value ms) = (ms.map Metric.format).map fun f => key f.label := by
  rw [keys, dictionary, List.map_map, List.map_map]
  rfl

/-- Storing the metrics one after the other, under distinct keys. -/
theorem foldl_set_dictionary {α : Type} {key : Text → Text} {value : ℚ → α} {ms : List Metric}
    (hkeys : (keys (dictionary key value ms)).Nodup) :
    ms.foldl (fun d m => set d (key m.label) (value m.value.printed)) [] =
      dictionary key value ms := by
  have hfold : (dictionary key value ms).foldl (fun d entry => set d entry.1 entry.2) [] =
      [] ++ dictionary key value ms := foldl_set hkeys
  rwa [dictionary, List.foldl_map] at hfold

end ConnectionOrder.Resultexp3
