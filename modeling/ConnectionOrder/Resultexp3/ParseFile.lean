import ConnectionOrder.Resultexp3.LogLines

/-!
# What the two line readers make of a log

Both go through the file line by line. A header puts the group before it away, a
metric is stored in the group that is open, and the overall statistics end the groups.
-/

namespace ConnectionOrder.Resultexp3

open PyText FixedPoint PyDict Rows StatsLog

theorem firstFloat_row {m : Metric} (h : Readable m) :
    firstFloat (m.row.number ++ m.row.unit) = some (some m.value.printed) := by
  rw [firstFloat, h.ok.firstWord_value, Option.map_some]
  exact congrArg some h.float

theorem head_line {m : Metric} (h : Readable m) : (m.row.line []).head? = m.label.head? := by
  rw [Row.line, List.nil_append]
  exact List.head?_append_of_ne_nil _ h.ok.label.nonempty

theorem strip_label {m : Metric} (h : Readable m) : strip m.label = m.label :=
  strip_trimmed h.ok.label.nonempty h.ok.label.trimmed

namespace ProcessConnectionStatsFiles

/-! ## process_connection_stats_files: one line -/

theorem dropWord_append (word s : Text) : dropWord word (word ++ s) = some s := by
  rw [dropWord, if_pos (startsWith_append word s), List.drop_left]

theorem dropDigits_append (n : UInt64) {c : Char} (hc : c.isDigit = false) (s : Text) :
    dropDigits (size n ++ c :: s) = some (c :: s) := by
  have hdigits : ∀ d ∈ size n, d.isDigit = true := fun _ hd => Scan.isDigit_toDigits hd
  have hhead : ∀ d ∈ (c :: s).head?, d.isDigit = false := by
    rintro d ⟨⟩
    exact hc
  obtain ⟨htake, hdrop⟩ := Scan.takeWhile_append_of hdigits hhead
  rw [dropDigits, htake, hdrop]
  exact if_neg Nat.toDigits_ne_nil

theorem matchesSummary_header (a b : UInt64) : matchesSummary (summaryHeader a b) = true := by
  have hfor : ProcessConnectionStatsFiles.summaryFor = StatsLog.summaryFor := rfl
  have hto : ProcessConnectionStatsFiles.upTo = StatsLog.upTo := rfl
  have hspace : ∃ rest, StatsLog.upTo = ' ' :: rest := ⟨['t', 'o', ' '], by decide⟩
  obtain ⟨rest, hrest⟩ := hspace
  have hfirst : dropDigits (size (a + 1) ++ (StatsLog.upTo ++ (size b ++ [':']))) =
      some (StatsLog.upTo ++ (size b ++ [':'])) := by
    rw [hrest, List.cons_append]
    exact dropDigits_append _ rfl _
  rw [matchesSummary, summaryHeader, hfor, hto, dropWord_append, Option.bind_some, hfirst,
    Option.bind_some, dropWord_append, Option.bind_some, dropDigits_append b rfl,
    Option.bind_some]
  rfl

theorem not_matchesSummary {line : Text} (h : line.head? ≠ some 'S') :
    matchesSummary line = false := by
  have hfirst : ProcessConnectionStatsFiles.summaryFor.head? = some 'S' := by decide
  have hstarts : startsWith ProcessConnectionStatsFiles.summaryFor line = false :=
    startsWith_of_head hfirst h
  rw [matchesSummary, dropWord, hstarts]
  rfl

theorem not_overallStart {line : Text} (h : line.head? ≠ some 'O') :
    startsWith overallStart line = false :=
  startsWith_of_head (by decide) h

/-- The summaries that are complete, and the one that is not. -/
def Reading.finished (r : Reading) : List Metrics :=
  r.connectionSummaries ++ r.currentSummary.toList

theorem parseLine_summaryHeader (r : Reading) (a b : UInt64) :
    parseLine r (summaryHeader a b ++ ['\n']) =
      some ⟨r.finished, r.overallSummary, some [], false⟩ := by
  rw [parseLine, strip_summaryHeader, matchesSummary_header]
  rfl

theorem parseLine_overallHeader (r : Reading) :
    parseLine r (overallHeader ++ ['\n']) =
      some ⟨r.finished, r.overallSummary, none, true⟩ := by
  have hmatch : matchesSummary overallHeader = false := by
    apply not_matchesSummary
    decide
  have hstarts : startsWith overallStart overallHeader = true := by decide
  rw [parseLine, strip_overallHeader, hmatch, hstarts]
  rfl

theorem parseLine_blank (r : Reading) : parseLine r ([] ++ ['\n']) = some r := by
  have hstrip : strip ([] ++ ['\n']) = [] := by decide
  have hmatch : matchesSummary [] = false := not_matchesSummary (by decide)
  have hstarts : startsWith overallStart [] = false := not_overallStart (by decide)
  rw [parseLine, hstrip, hmatch, hstarts]
  rfl

def storeMetric (r : Reading) (m : Metric) : Reading :=
  store r (cleanKey m.label) (.number m.value.printed)

theorem parseLine_metric {r : Reading} {m : Metric} (h : Readable m) {indent : Text}
    (hindent : ∀ c ∈ indent, isSpace c = true)
    (hopen : r.currentSummary.isSome ∨ r.inOverall = true) :
    parseLine r (m.row.line indent ++ ['\n']) = some (storeMetric r m) := by
  have hmatch : matchesSummary (m.row.line []) = false := by
    apply not_matchesSummary
    rw [head_line h]
    exact h.unmarked.1
  have hstarts : startsWith overallStart (m.row.line []) = false := by
    apply not_overallStart
    rw [head_line h]
    exact h.unmarked.2
  rw [parseLine, h.ok.strip_line hindent, hmatch, hstarts, h.ok.cut_line]
  dsimp only
  rw [if_neg Bool.false_ne_true, if_neg Bool.false_ne_true, if_pos hopen, h.ok.strip_value,
    cleanValue, firstFloat_row h]
  change some (store r (cleanKey (strip m.label)) _) = _
  rw [strip_label h]
  rfl

/-! ## process_connection_stats_files: the whole file -/

theorem storeMetric_open {r : Reading} (m : Metric)
    (hopen : r.currentSummary.isSome ∨ r.inOverall = true) :
    (storeMetric r m).currentSummary.isSome ∨ (storeMetric r m).inOverall = true := by
  rw [storeMetric, store]
  split
  · exact .inr ‹_›
  · refine hopen.imp_left fun hsome => ?_
    dsimp only
    rwa [Option.isSome_map]

theorem foldlM_metrics {ms : List Metric} (h : ∀ m ∈ ms, Readable m) {indent : Text}
    (hindent : ∀ c ∈ indent, isSpace c = true) {r : Reading}
    (hopen : r.currentSummary.isSome ∨ r.inOverall = true) :
    ((ms.map fun m => m.row.line indent).map (· ++ ['\n'])).foldlM parseLine r =
      some (ms.foldl storeMetric r) := by
  induction ms generalizing r with
  | nil => rfl
  | cons m ms ih =>
    rw [List.map_cons, List.map_cons, List.foldlM_cons,
      parseLine_metric (h m List.mem_cons_self) hindent hopen]
    exact ih (fun m' hm' => h m' (List.mem_cons_of_mem m hm')) (storeMetric_open m hopen)

/-- The metrics of a group as parse_file keeps them. -/
def metricsOf (ms : List Metric) : Metrics := dictionary cleanKey Value.number ms

theorem foldl_set_metrics {ms : List Metric} (hkeys : (keys (metricsOf ms)).Nodup) :
    ms.foldl (fun d m => set d (cleanKey m.label) (.number m.value.printed)) [] =
      metricsOf ms := foldl_set_dictionary hkeys

theorem foldl_summary (ms : List Metric) (finished : List Metrics) (overall d : Metrics) :
    ms.foldl storeMetric ⟨finished, overall, some d, false⟩ =
      ⟨finished, overall,
        some (ms.foldl (fun d m => set d (cleanKey m.label) (.number m.value.printed)) d),
        false⟩ := by
  induction ms generalizing d with
  | nil => rfl
  | cons m ms ih => exact ih _

theorem foldl_overall (ms : List Metric) (finished : List Metrics) (d : Metrics) :
    ms.foldl storeMetric ⟨finished, d, none, true⟩ =
      ⟨finished, ms.foldl (fun d m => set d (cleanKey m.label) (.number m.value.printed)) d,
        none, true⟩ := by
  induction ms generalizing d with
  | nil => rfl
  | cons m ms ih => exact ih _

theorem summaryKeys_nodup : (summaryFormats.map fun f => cleanKey f.label).Nodup := by
  decide

theorem overallKeys_nodup : (overallFormats.map fun f => cleanKey f.label).Nodup := by
  decide

theorem parse_summary {s : Summary} (h : ∀ m ∈ s.metrics, Readable m)
    (hformats : s.metrics.map Metric.format = summaryFormats) (r : Reading) :
    (s.lines.map (· ++ ['\n'])).foldlM parseLine r =
      some ⟨r.finished, r.overallSummary, some (metricsOf s.metrics), false⟩ := by
  have hindent : ∀ c ∈ summaryIndent, isSpace c = true := by decide
  have hkeys : (keys (metricsOf s.metrics)).Nodup := by
    rw [metricsOf, keys_dictionary, hformats]
    exact summaryKeys_nodup
  have hmetrics := foldlM_metrics h hindent
    (r := ⟨r.finished, r.overallSummary, some [], false⟩) (.inl rfl)
  rw [foldl_summary, foldl_set_metrics hkeys] at hmetrics
  rw [Summary.lines, List.cons_append, List.map_cons, List.foldlM_cons, parseLine_summaryHeader,
    Option.bind_eq_bind, Option.bind_some, List.map_append, List.foldlM_append, hmetrics,
    Option.bind_eq_bind, Option.bind_some, List.map_cons, List.map_nil, List.foldlM_cons,
    parseLine_blank]
  rfl

/-- One group after the other, the last one being still open. -/
theorem parse_summaries {ss : List Summary} (h : ∀ s ∈ ss, ∀ m ∈ s.metrics, Readable m)
    (hformats : ∀ s ∈ ss, s.metrics.map Metric.format = summaryFormats) (r : Reading) :
    ∃ r', ((ss.flatMap Summary.lines).map (· ++ ['\n'])).foldlM parseLine r = some r' ∧
      r'.finished = r.finished ++ ss.map (fun s => metricsOf s.metrics) ∧
      r'.overallSummary = r.overallSummary := by
  induction ss generalizing r with
  | nil => exact ⟨r, rfl, (List.append_nil _).symm, rfl⟩
  | cons s ss ih =>
    obtain ⟨r', hrest, hfinished, hoverall⟩ := ih
      (fun s' hs' => h s' (List.mem_cons_of_mem s hs'))
      (fun s' hs' => hformats s' (List.mem_cons_of_mem s hs'))
      ⟨r.finished, r.overallSummary, some (metricsOf s.metrics), false⟩
    refine ⟨r', ?_, ?_, hoverall⟩
    · rw [List.flatMap_cons, List.map_append, List.foldlM_append,
        parse_summary (h s List.mem_cons_self) (hformats s List.mem_cons_self),
        Option.bind_eq_bind, Option.bind_some, hrest]
    · rw [hfinished, List.map_cons, List.append_cons]
      rfl

theorem parse_overall {input : StatsInput} (h : ∀ m ∈ input.overall, Readable m) {r : Reading}
    (hr : r.overallSummary = []) :
    (input.overallLines.map (· ++ ['\n'])).foldlM parseLine r =
      some ⟨r.finished, metricsOf input.overall, none, true⟩ := by
  have hkeys : (keys (metricsOf input.overall)).Nodup := by
    rw [metricsOf, keys_dictionary, StatsInput.overall, format_overallMetrics]
    exact overallKeys_nodup
  have hmetrics := foldlM_metrics h (fun _ hc => absurd hc List.not_mem_nil)
    (r := ⟨r.finished, [], none, true⟩) (.inr rfl)
  rw [foldl_overall, foldl_set_metrics hkeys] at hmetrics
  rw [StatsInput.overallLines, List.map_cons, List.map_cons, List.foldlM_cons, parseLine_blank,
    Option.bind_eq_bind, Option.bind_some, List.foldlM_cons, parseLine_overallHeader,
    Option.bind_eq_bind, Option.bind_some, hr, hmetrics]

theorem parseFile_log {input : StatsInput} {log : Text}
    (hlog : writeStatsToFile input = some log) :
    parseFile (some log) =
      some (input.summaries.map fun s => metricsOf s.metrics, metricsOf input.overall) := by
  obtain ⟨r, hsummaries, hfinished, hoverall⟩ :=
    parse_summaries (readable_summaries input) (formats_summaries input) ⟨[], [], none, false⟩
  rw [parseFile, readlines_log hlog, List.foldlM_append, hsummaries, Option.bind_eq_bind,
    Option.bind_some, parse_overall (readable_overall input) hoverall, Option.map_some, hfinished]
  simp [Reading.finished]

end ProcessConnectionStatsFiles

namespace Cdf

/-! ## cdf: one line -/

theorem parseLines_summaryHeader (r : Reading) (a b : UInt64) (rest : List Text) :
    parseLines r ((summaryHeader a b ++ ['\n']) :: rest) =
      parseLines { r with data := r.saved, currentGroup := [], inSummary := true } rest := by
  have hstarts : startsWith Cdf.summaryFor (summaryHeader a b) = true := by
    have hprefix : Cdf.summaryFor <+: StatsLog.summaryFor := ⟨[' '], by decide⟩
    rw [startsWith, List.isPrefixOf_iff_prefix, summaryHeader]
    exact hprefix.trans (List.prefix_append _ _)
  rw [parseLines, strip_summaryHeader, if_neg (summaryHeader_ne_nil a b), if_pos hstarts]

theorem parseLines_overallHeader (r : Reading) (rest : List Text) :
    parseLines r ((overallHeader ++ ['\n']) :: rest) =
      some { r with data := r.saved, inSummary := false } := by
  have hne : overallHeader ≠ [] := by decide
  have hfor : startsWith Cdf.summaryFor overallHeader = false := by decide
  have hstarts : startsWith Cdf.overallStart overallHeader = true := by decide
  rw [parseLines, strip_overallHeader, if_neg hne, hfor, if_pos hstarts]
  rfl

theorem parseLines_blank (r : Reading) (rest : List Text) :
    parseLines r (([] ++ ['\n']) :: rest) = parseLines r rest := by
  have hstrip : strip ([] ++ ['\n']) = [] := by decide
  rw [parseLines, hstrip, if_pos rfl]

def storeMetric (r : Reading) (m : Metric) : Reading :=
  store r (cleanKey m.label) m.value.printed

theorem parseLines_metric {r : Reading} {m : Metric} (h : Readable m) {indent : Text}
    (hindent : ∀ c ∈ indent, isSpace c = true) (hopen : r.inSummary = true) (rest : List Text) :
    parseLines r ((m.row.line indent ++ ['\n']) :: rest) = parseLines (storeMetric r m) rest := by
  have hne : m.row.line [] ≠ [] := by simp [Row.line]
  have hfor : startsWith Cdf.summaryFor (m.row.line []) = false := by
    refine startsWith_of_head (c := 'S') (by decide) ?_
    rw [head_line h]
    exact h.unmarked.1
  have hstarts : startsWith Cdf.overallStart (m.row.line []) = false := by
    refine startsWith_of_head (c := 'O') (by decide) ?_
    rw [head_line h]
    exact h.unmarked.2
  have hvalue : ':' ∉ ' ' :: (m.row.number ++ m.row.unit) := by
    rw [List.mem_cons, not_or]
    exact ⟨by decide, h.ok.notMem_value rfl h.ok.unit.colon⟩
  have hpart1 : part1 [':'] (m.row.line []) = some (' ' :: (m.row.number ++ m.row.unit)) := by
    rw [part1, h.ok.cut_line, Option.map_some, part0,
      cutText_eq_none List.mem_cons_self hvalue]
  have hpart0 : part0 [':'] (m.row.line []) = m.label := by
    rw [part0, h.ok.cut_line]
    rfl
  rw [parseLines, h.ok.strip_line hindent, if_neg hne, hfor, hstarts, if_pos hopen, parsePair,
    hpart1, hpart0]
  dsimp only
  rw [h.ok.strip_value, firstFloat_row h, if_neg Bool.false_ne_true, if_neg Bool.false_ne_true]
  rfl

/-! ## cdf: the whole file -/

theorem parseLines_metrics {ms : List Metric} (h : ∀ m ∈ ms, Readable m) {indent : Text}
    (hindent : ∀ c ∈ indent, isSpace c = true) {r : Reading} (hopen : r.inSummary = true)
    (rest : List Text) :
    parseLines r ((ms.map fun m => m.row.line indent).map (· ++ ['\n']) ++ rest) =
      parseLines (ms.foldl storeMetric r) rest := by
  induction ms generalizing r with
  | nil => rfl
  | cons m ms ih =>
    rw [List.map_cons, List.map_cons, List.cons_append,
      parseLines_metric (h m List.mem_cons_self) hindent hopen]
    exact ih (fun m' hm' => h m' (List.mem_cons_of_mem m hm')) hopen

/-- The metrics of a group as parse_file keeps them. -/
def metricsOf (ms : List Metric) : Metrics := dictionary cleanKey id ms

/-- The values that parse_file appends to the list for this key. -/
def ratiosOf (key : Text) (ms : List Metric) : List ℚ :=
  ms.flatMap fun m => if cleanKey m.label = key then [m.value.printed] else []

theorem foldl_storeMetric (ms : List Metric) (r : Reading) :
    ms.foldl storeMetric r = { r with
      currentGroup :=
        ms.foldl (fun d m => set d (cleanKey m.label) m.value.printed) r.currentGroup
      persistentRatios := r.persistentRatios ++ ratiosOf persistentRatio ms
      nonPersistentRatios := r.nonPersistentRatios ++ ratiosOf nonPersistentRatio ms } := by
  have happend : ∀ (key : Text) (xs : List ℚ) (m : Metric) (ms : List Metric),
      (if cleanKey m.label = key then xs ++ [m.value.printed] else xs) ++ ratiosOf key ms =
        xs ++ ratiosOf key (m :: ms) := by
    intro key xs m ms
    rw [ratiosOf, ratiosOf, List.flatMap_cons]
    split <;> simp
  induction ms generalizing r with
  | nil => simp [ratiosOf]
  | cons m ms ih =>
    rw [List.foldl_cons, ih, storeMetric, store]
    simp only [happend, List.foldl_cons]

theorem foldl_set_metrics {ms : List Metric} (hkeys : (keys (metricsOf ms)).Nodup) :
    ms.foldl (fun d m => set d (cleanKey m.label) m.value.printed) [] = metricsOf ms :=
  foldl_set_dictionary hkeys

theorem summaryKeys_nodup : (summaryFormats.map fun f => cleanKey f.label).Nodup := by
  decide

theorem parse_summary {s : Summary} (h : ∀ m ∈ s.metrics, Readable m)
    (hformats : s.metrics.map Metric.format = summaryFormats) (r : Reading) (rest : List Text) :
    parseLines r (s.lines.map (· ++ ['\n']) ++ rest) =
      parseLines ⟨r.saved, metricsOf s.metrics,
        r.persistentRatios ++ ratiosOf persistentRatio s.metrics,
        r.nonPersistentRatios ++ ratiosOf nonPersistentRatio s.metrics, true⟩ rest := by
  have hindent : ∀ c ∈ summaryIndent, isSpace c = true := by decide
  have hkeys : (keys (metricsOf s.metrics)).Nodup := by
    rw [metricsOf, keys_dictionary, hformats]
    exact summaryKeys_nodup
  rw [Summary.lines, List.cons_append, List.map_cons, List.cons_append, parseLines_summaryHeader,
    List.map_append, List.append_assoc, parseLines_metrics h hindent rfl, List.map_cons,
    List.map_nil, List.cons_append, parseLines_blank, foldl_storeMetric,
    foldl_set_metrics hkeys, List.nil_append]

theorem saved_of_ne_nil {r : Reading} (h : r.currentGroup ≠ []) :
    r.saved = r.data ++ [r.currentGroup] := if_neg h

theorem parse_summaries {ss : List Summary} (h : ∀ s ∈ ss, ∀ m ∈ s.metrics, Readable m)
    (hformats : ∀ s ∈ ss, s.metrics.map Metric.format = summaryFormats) (r : Reading)
    (rest : List Text) :
    ∃ r', parseLines r ((ss.flatMap Summary.lines).map (· ++ ['\n']) ++ rest) =
        parseLines r' rest ∧
      r'.saved = r.saved ++ ss.map (fun s => metricsOf s.metrics) ∧
      r'.persistentRatios =
        r.persistentRatios ++ ss.flatMap (fun s => ratiosOf persistentRatio s.metrics) ∧
      r'.nonPersistentRatios =
        r.nonPersistentRatios ++ ss.flatMap fun s => ratiosOf nonPersistentRatio s.metrics := by
  induction ss generalizing r with
  | nil =>
    exact ⟨r, rfl, (List.append_nil _).symm, (List.append_nil _).symm, (List.append_nil _).symm⟩
  | cons s ss ih =>
    obtain ⟨r', hrest, hsaved, hpersistent, hnonpersistent⟩ := ih
      (fun s' hs' => h s' (List.mem_cons_of_mem s hs'))
      (fun s' hs' => hformats s' (List.mem_cons_of_mem s hs'))
      ⟨r.saved, metricsOf s.metrics, r.persistentRatios ++ ratiosOf persistentRatio s.metrics,
        r.nonPersistentRatios ++ ratiosOf nonPersistentRatio s.metrics, true⟩
    have hne : metricsOf s.metrics ≠ [] := by
      intro hnil
      have hempty : s.metrics = [] := List.map_eq_nil_iff.mp hnil
      have hlength := congrArg List.length (hformats s List.mem_cons_self)
      rw [hempty] at hlength
      cases hlength
    refine ⟨r', ?_, ?_, ?_, ?_⟩
    · rw [List.flatMap_cons, List.map_append, List.append_assoc,
        parse_summary (h s List.mem_cons_self) (hformats s List.mem_cons_self), hrest]
    · rw [hsaved, saved_of_ne_nil hne, List.map_cons, List.append_assoc, List.singleton_append]
    · rw [hpersistent, List.flatMap_cons, List.append_assoc]
    · rw [hnonpersistent, List.flatMap_cons, List.append_assoc]

theorem parseFile_log {input : StatsInput} {log : Text}
    (hlog : writeStatsToFile input = some log) :
    parseFile (some log) =
      some (input.summaries.map fun s => metricsOf s.metrics,
        input.summaries.flatMap fun s => ratiosOf persistentRatio s.metrics,
        input.summaries.flatMap fun s => ratiosOf nonPersistentRatio s.metrics) := by
  obtain ⟨r, hsummaries, hsaved, hpersistent, hnonpersistent⟩ :=
    parse_summaries (readable_summaries input)
      (formats_summaries input) ⟨[], [], [], [], false⟩
      (input.overallLines.map (· ++ ['\n']))
  rw [parseFile, readlines_log hlog, hsummaries, StatsInput.overallLines, List.map_cons,
    List.map_cons, parseLines_blank, parseLines_overallHeader, Option.map_some, hpersistent,
    hnonpersistent, hsaved]
  rfl

end Cdf

end ConnectionOrder.Resultexp3
