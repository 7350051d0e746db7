import ConnectionOrder.Resultexp3.LogLines

/-!
# What the two searches find in a log

avg and avg2 cut the text at the overall statistics and look for one label at a time.
A label is found where a line has it in front of its colon, and in no other line.
-/

namespace ConnectionOrder.Resultexp3

open PyText FixedPoint PyDict Rows StatsLog

/-! ## The two parts of the log -/

section Parts

variable {input : StatsInput} {log : Text} (hlog : writeStatsToFile input = some log)
include hlog

theorem cutText_log : cutText delimiter (textMode log) =
    some (Lines.terminate '\n' (input.summaries.flatMap Summary.lines ++ [[]]),
      Lines.terminate '\n' ([] :: input.overall.map fun m => m.row.line [])) := by
  have hnewline : '\n' ∉ delimiter := by decide
  have hmark : '(' ∈ delimiter := by decide
  have hne : delimiter ≠ [] := by decide
  have hlines : ∀ line ∈ input.summaries.flatMap Summary.lines ++ [[]], '(' ∉ line := by
    intro line hline
    rw [List.mem_append, List.mem_flatMap, List.mem_singleton] at hline
    rcases hline with ⟨s, hs, hline⟩ | rfl
    · exact unmarred_summary (readable_summaries input s hs) line hline _ (by decide)
    · exact List.not_mem_nil
  have hsplit : textMode log =
      Lines.terminate '\n' (input.summaries.flatMap Summary.lines ++ [[]]) ++
        (delimiter ++
          Lines.terminate '\n' ([] :: input.overall.map fun m => m.row.line [])) := by
    have hheader : overallHeader = delimiter := rfl
    rw [textMode_log hlog, StatsInput.overallLines, hheader]
    simp [Lines.terminate]
  rw [hsplit, cutText_terminate hnewline hmark hlines, cutText_self hne, Option.map_some,
    List.append_nil]

theorem part0_log : part0 delimiter (textMode log) =
    Lines.terminate '\n' (input.summaries.flatMap Summary.lines ++ [[]]) := by
  rw [part0, cutText_log hlog]

theorem part1_log : part1 delimiter (textMode log) =
    some (Lines.terminate '\n' ([] :: input.overall.map fun m => m.row.line [])) := by
  have hmark : '(' ∈ delimiter := by decide
  have hrest : '(' ∉ Lines.terminate '\n' ([] :: input.overall.map fun m => m.row.line []) := by
    rw [Lines.terminate, List.mem_flatMap]
    rintro ⟨line, hline, hmem⟩
    rw [List.mem_append, List.mem_singleton] at hmem
    rcases hmem with hmem | hmem
    · rw [List.mem_cons, List.mem_map] at hline
      rcases hline with rfl | ⟨m, hm, rfl⟩
      · exact List.not_mem_nil hmem
      · exact unmarred_line (readable_overall input m hm) (fun c _ => List.not_mem_nil) _
          (by decide) hmem
    · exact absurd hmem (by decide)
  rw [part1, cutText_log hlog, Option.map_some, part0, cutText_eq_none hmark hrest]

end Parts

/-! ## One label -/

/-- The numbers behind a label. -/
def column (label : Text) (ms : List Metric) : List ℚ :=
  ms.flatMap fun m => if label = m.label then [m.value.printed] else []

def columnText (label : Text) (ms : List Metric) : List Text :=
  ms.flatMap fun m => if label = m.label then [m.row.number] else []

/-- No line of the formats ends its label with another label that is sought. -/
def separated (indent : Text) (fields : List Text) (formats : List Format) : Bool :=
  fields.all fun field => formats.all fun f =>
    decide (field <:+ indent ++ f.label → field = f.label)

/-- A label that the headers of the groups do not end with. -/
def fieldOk (field : Text) : Bool :=
  decide (LabelOk field ∧ ∀ c ∈ field.getLast?, c.isDigit = false)

theorem mapM_columnText {label : Text} {ms : List Metric} (h : ∀ m ∈ ms, Readable m) :
    (columnText label ms).mapM float = some (column label ms) := by
  induction ms with
  | nil => rfl
  | cons m ms ih =>
    have hrest := ih fun m' hm' => h m' (List.mem_cons_of_mem m hm')
    have hfloat : float m.row.number = some m.value.printed := (h m List.mem_cons_self).float
    rw [columnText, List.flatMap_cons, ← columnText, column, List.flatMap_cons, ← column]
    split
    · rw [List.singleton_append, List.mapM_cons, hfloat, hrest]
      rfl
    · exact hrest

section Find

variable {label : Text} (hlabel : LabelOk label)
include hlabel

theorem findall_metrics {ms : List Metric} (h : ∀ m ∈ ms, Readable m)
    (hnonneg : ∀ m ∈ ms, m.value.NonNegative) {indent : Text} (hindent : ':' ∉ indent)
    (hsuffix : ∀ m ∈ ms, label <:+ indent ++ m.label → label = m.label) (s : Text) :
    findall label (Lines.terminate '\n' (ms.map fun m => m.row.line indent) ++ s) =
      columnText label ms ++ findall label s := by
  induction ms with
  | nil => rfl
  | cons m ms ih =>
    have hline := (h m List.mem_cons_self).ok.findall_line
      (Metric.numeral (hnonneg m List.mem_cons_self)) hlabel hindent
      (hsuffix m List.mem_cons_self)
    rw [List.map_cons, Lines.terminate_cons, List.append_assoc, List.cons_append, hline,
      ih (fun m' hm' => h m' (List.mem_cons_of_mem m hm'))
        (fun m' hm' => hnonneg m' (List.mem_cons_of_mem m hm'))
        fun m' hm' => hsuffix m' (List.mem_cons_of_mem m hm'),
      columnText, columnText, List.flatMap_cons, List.append_assoc]
    rfl

theorem findall_blank (s : Text) : findall label ('\n' :: s) = findall label s :=
  findall_plain hlabel List.not_mem_nil s

theorem findall_summaryHeader (hlast : ∀ c ∈ label.getLast?, c.isDigit = false) (a b : UInt64)
    (s : Text) : findall label (summaryHeader a b ++ '\n' :: s) = findall label s := by
  have hfront : ':' ∉ summaryFor ++ (size (a + 1) ++ (upTo ++ size b)) := by
    have hfor : ':' ∉ summaryFor := by decide
    have hto : ':' ∉ upTo := by decide
    have hsize : ∀ n, ':' ∉ size n := by
      intro n hmem
      have hdigit : (':').isDigit = true := Scan.isDigit_toDigits hmem
      cases hdigit
    simp only [List.mem_append, not_or]
    exact ⟨hfor, hsize _, hto, hsize _⟩
  have hsuffix : ¬label <:+ summaryFor ++ (size (a + 1) ++ (upTo ++ size b)) := by
    intro hsuffix
    have hsize : size b ≠ [] := Nat.toDigits_ne_nil
    obtain ⟨c, hc⟩ := Option.isSome_iff_exists.mp
      (List.getLast?_isSome.mpr hlabel.nonempty)
    obtain ⟨rest, hrest⟩ := hsuffix
    have hline := congrArg List.getLast? hrest
    rw [List.getLast?_append, hc, Option.some_or, List.getLast?_append, List.getLast?_append,
      List.getLast?_append] at hline
    obtain ⟨d, hd⟩ := Option.isSome_iff_exists.mp (List.getLast?_isSome.mpr hsize)
    rw [hd, Option.some_or, Option.some_or, Option.some_or] at hline
    cases hline
    have hdigit : c.isDigit = true := Scan.isDigit_toDigits (List.mem_of_getLast? hd)
    rw [hlast c hc] at hdigit
    cases hdigit
  have hsplit : summaryHeader a b ++ '\n' :: s =
      (summaryFor ++ (size (a + 1) ++ (upTo ++ size b))) ++ ':' :: '\n' :: s := by
    simp [summaryHeader]
  rw [hsplit, findall_other hlabel hfront hsuffix, findall_blank hlabel]

theorem findall_summaries (hlast : ∀ c ∈ label.getLast?, c.isDigit = false) {ss : List Summary}
    (h : ∀ s ∈ ss, ∀ m ∈ s.metrics, Readable m)
    (hnonneg : ∀ s ∈ ss, ∀ m ∈ s.metrics, m.value.NonNegative)
    (hsuffix : ∀ s ∈ ss, ∀ m ∈ s.metrics, label <:+ summaryIndent ++ m.label → label = m.label)
    (t : Text) :
    findall label (Lines.terminate '\n' (ss.flatMap Summary.lines) ++ t) =
      (ss.flatMap fun s => columnText label s.metrics) ++ findall label t := by
  have hindent : ':' ∉ summaryIndent := by decide
  induction ss with
  | nil => rfl
  | cons s ss ih =>
    have hlines : Lines.terminate '\n' ((s :: ss).flatMap Summary.lines) ++ t =
        summaryHeader s.startConn s.endConn ++
          '\n' :: (Lines.terminate '\n' (s.metrics.map fun m => m.row.line summaryIndent) ++
            '\n' :: (Lines.terminate '\n' (ss.flatMap Summary.lines) ++ t)) := by
      simp [Lines.terminate, Summary.lines]
    rw [hlines, findall_summaryHeader hlabel hlast,
      findall_metrics hlabel (h s List.mem_cons_self) (hnonneg s List.mem_cons_self) hindent
        (hsuffix s List.mem_cons_self),
      findall_blank hlabel, ih (fun s' hs' => h s' (List.mem_cons_of_mem s hs'))
        (fun s' hs' => hnonneg s' (List.mem_cons_of_mem s hs'))
        fun s' hs' => hsuffix s' (List.mem_cons_of_mem s hs'),
      List.flatMap_cons, List.append_assoc]

end Find

/-! ## All labels -/

theorem collect_eq {fields : List Text} {text : Text} {values : Text → List ℚ}
    (h : ∀ field ∈ fields, (findall field text).mapM float = some (values field)) :
    collect fields text = some (fields.map fun field => (field, values field)) := by
  rw [collect]
  apply mapM_eq_map
  intro field hfield
  rw [h field hfield, Option.map_some]

theorem mapM_summaries {label : Text} {ss : List Summary}
    (h : ∀ s ∈ ss, ∀ m ∈ s.metrics, Readable m) :
    (ss.flatMap fun s => columnText label s.metrics).mapM float =
      some (ss.flatMap fun s => column label s.metrics) := by
  induction ss with
  | nil => rfl
  | cons s ss ih =>
    rw [List.flatMap_cons, List.flatMap_cons, List.mapM_append,
      mapM_columnText (h s List.mem_cons_self),
      ih fun s' hs' => h s' (List.mem_cons_of_mem s hs')]
    rfl

section Fields

variable {fields : List Text} {formats : List Format} {field : Text}

theorem labelOk_of_fieldOk (hall : fields.all fieldOk = true) (hfield : field ∈ fields) :
    LabelOk field ∧ ∀ c ∈ field.getLast?, c.isDigit = false :=
  of_decide_eq_true (List.all_eq_true.mp hall field hfield)

theorem suffix_of_separated {indent : Text} (hall : separated indent fields formats = true)
    (hfield : field ∈ fields) {ms : List Metric} (hformats : ms.map Metric.format = formats) :
    ∀ m ∈ ms, field <:+ indent ++ m.label → field = m.label := by
  intro m hm
  have hmem : m.format ∈ formats := hformats ▸ List.mem_map_of_mem hm
  exact of_decide_eq_true
    (List.all_eq_true.mp (List.all_eq_true.mp hall field hfield) m.format hmem)

end Fields

section Load

variable {input : StatsInput} (h : input.NonNegative)
include h

theorem findall_connectionPart {field : Text} (hfield : field ∈ Avg.fields) :
    findall field (Lines.terminate '\n' (input.summaries.flatMap Summary.lines ++ [[]])) =
      input.summaries.flatMap fun s => columnText field s.metrics := by
  have hall : Avg.fields.all fieldOk = true := by decide
  have hseparated : separated summaryIndent Avg.fields summaryFormats = true := by
    decide
  obtain ⟨hlabel, hlast⟩ := labelOk_of_fieldOk hall hfield
  have hblank : Lines.terminate '\n' (input.summaries.flatMap Summary.lines ++ [[]]) =
      Lines.terminate '\n' (input.summaries.flatMap Summary.lines) ++ ['\n'] := by
    simp [Lines.terminate]
  rw [hblank, findall_summaries hlabel hlast (readable_summaries input) h.summaries fun s hs =>
    suffix_of_separated hseparated hfield (formats_summaries input s hs),
    findall_blank hlabel, findall, List.append_nil]

theorem findall_overallPart {field : Text} (hfield : field ∈ Avg2.fieldsToAverage) :
    findall field (Lines.terminate '\n' ([] :: input.overall.map fun m => m.row.line [])) =
      columnText field input.overall := by
  have hall : Avg2.fieldsToAverage.all fieldOk = true := by decide
  have hseparated : separated [] Avg2.fieldsToAverage overallFormats = true := by
    decide
  obtain ⟨hlabel, _⟩ := labelOk_of_fieldOk hall hfield
  have hmetrics := findall_metrics hlabel (readable_overall input) h.overall List.not_mem_nil
    (suffix_of_separated hseparated hfield (format_overallMetrics _ _ _ _)) []
  rw [List.append_nil, findall, List.append_nil] at hmetrics
  rw [Lines.terminate_cons, List.nil_append, findall_blank hlabel, hmetrics]

theorem duration_overallPart {field : Text} (hfield : field ∈ Avg2.fieldsToAverage) :
    Avg.duration field
        (Lines.terminate '\n' ([] :: input.overall.map fun m => m.row.line [])) =
      some ((column field input.overall).headD 0) := by
  have hcolumn : (columnText field input.overall).mapM float = some (column field input.overall) :=
    mapM_columnText (readable_overall input)
  rw [Avg.duration, search, findall_overallPart h hfield]
  cases htext : columnText field input.overall with
  | nil =>
    rw [htext, List.mapM_nil] at hcolumn
    rw [← Option.some.inj hcolumn]
    rfl
  | cons group rest =>
    rw [htext, List.mapM_cons] at hcolumn
    obtain ⟨x, hx, hrest⟩ := Option.bind_eq_some_iff.mp hcolumn
    obtain ⟨xs, _, hxs⟩ := Option.bind_eq_some_iff.mp hrest
    rw [← Option.some.inj hxs]
    exact hx

variable {log : Text} (hlog : writeStatsToFile input = some log)
include hlog

theorem Avg.loadFile_log : Avg.loadFile (some log) =
    some (Avg.fields.map fun field =>
        (field, input.summaries.flatMap fun s => column field s.metrics),
      (column Avg.persistentDuration input.overall).headD 0,
      (column Avg.nonpersistentDuration input.overall).headD 0) := by
  have hpersistent : Avg.persistentDuration ∈ Avg2.fieldsToAverage := by decide
  have hnonpersistent : Avg.nonpersistentDuration ∈ Avg2.fieldsToAverage := by decide
  have hcollect : Avg.parseConnectionBlock
      (Lines.terminate '\n' (input.summaries.flatMap Summary.lines ++ [[]])) =
      some (Avg.fields.map fun field =>
        (field, input.summaries.flatMap fun s => column field s.metrics)) := by
    apply collect_eq
    intro field hfield
    rw [findall_connectionPart h hfield]
    exact mapM_summaries (readable_summaries input)
  rw [Avg.loadFile, Option.bind_some, part1_log hlog, Option.bind_some, part0_log hlog,
    hcollect, Option.bind_some, Avg.parseOverallStatistics, duration_overallPart h hpersistent,
    duration_overallPart h hnonpersistent]
  rfl

theorem Avg2.loadFile_log : Avg2.loadFile (some log) =
    some (Avg2.fieldsToAverage.map fun field => (field, column field input.overall)) := by
  rw [Avg2.loadFile, Option.bind_some, part1_log hlog, Option.bind_some,
    Avg2.parseOverallStatistics]
  apply collect_eq
  intro field hfield
  rw [findall_overallPart h hfield]
  exact mapM_columnText (readable_overall input)

end Load

end ConnectionOrder.Resultexp3
