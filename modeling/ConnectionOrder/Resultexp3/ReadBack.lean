import ConnectionOrder.Resultexp3.ParseFile
import ConnectionOrder.Resultexp3.Searches

/-!
# The log is read back as it was written

The four decoders agree with the writer, and with one another, on every log.
-/

namespace ConnectionOrder.Resultexp3

open PyText FixedPoint PyDict Rows StatsLog
open ServerEpx3
open ProcessConnectionStatsFiles (Value)

/-- The value of a metric that parse_file keeps for a label. -/
def valueOf (ms : List Metric) (label : Text) : Option Value :=
  get? (ProcessConnectionStatsFiles.metricsOf ms) (ProcessConnectionStatsFiles.cleanKey label)

/-- The key of parse_file in process_connection_stats_files for a key of cdf. -/
def renamed (key : Text) : Text := "avg_".toList ++ key

/-- `metricsOf` pairs the key of each metric, in the order of the lines, with the number
that is printed. -/
structure ReadsBack (input : StatsInput) (log : Text) : Prop where
  parseFile : ProcessConnectionStatsFiles.parseFile (some log) =
    some (input.summaries.map fun s => ProcessConnectionStatsFiles.metricsOf s.metrics,
      ProcessConnectionStatsFiles.metricsOf input.overall)
  summaryKeys : ∀ s ∈ input.summaries,
    (keys (ProcessConnectionStatsFiles.metricsOf s.metrics)).Nodup ∧ s.metrics.length = 14
  overallKeys : (keys (ProcessConnectionStatsFiles.metricsOf input.overall)).Nodup ∧
    input.overall.length = 16
  cdf : ∃ data persistentRatios nonPersistentRatios,
    Cdf.parseFile (some log) = some (data, persistentRatios, nonPersistentRatios) ∧
      data.map (fun d => d.map fun entry => (renamed entry.1, Value.number entry.2)) =
        input.summaries.map fun s => ProcessConnectionStatsFiles.metricsOf s.metrics
  avg : ∃ fields persistent nonpersistent,
    Avg.loadFile (some log) = some (fields, persistent, nonpersistent) ∧
      keys fields = Avg.fields ∧
      (∀ entry ∈ fields, (input.summaries.map fun s => valueOf s.metrics entry.1) =
        entry.2.map fun x => some (Value.number x)) ∧
      valueOf input.overall Avg.persistentDuration = some (.number persistent) ∧
      valueOf input.overall Avg.nonpersistentDuration = some (.number nonpersistent)
  avg2 : ∃ fields, Avg2.loadFile (some log) = some fields ∧ keys fields = Avg2.fieldsToAverage ∧
    ∀ entry ∈ fields, [valueOf input.overall entry.1] =
      entry.2.map fun x => some (Value.number x)

/-! ## One value for each label -/

theorem labels_nodup {formats : List Format}
    (hkeys : (formats.map fun f => ProcessConnectionStatsFiles.cleanKey f.label).Nodup) :
    (formats.map Format.label).Nodup := by
  apply List.Nodup.of_map ProcessConnectionStatsFiles.cleanKey
  rw [List.map_map]
  exact hkeys

/-- Where the keys are distinct, the search for one of them finds one number, which is
the value under its key. -/
theorem column_eq {ms : List Metric} {formats : List Format}
    (hformats : ms.map Metric.format = formats)
    (hkeys : (formats.map fun f => ProcessConnectionStatsFiles.cleanKey f.label).Nodup)
    {label : Text} (hlabel : label ∈ formats.map Format.label) :
    ∃ x, column label ms = [x] ∧ valueOf ms label = some (.number x) := by
  have hlabels : (ms.map Metric.label).Nodup := by
    have hmap : formats.map Format.label = ms.map Metric.label := by
      rw [← hformats, List.map_map]
      rfl
    exact hmap ▸ labels_nodup hkeys
  have hkeys' : (ms.map fun m => ProcessConnectionStatsFiles.cleanKey m.label).Nodup := by
    rw [← hformats, List.map_map] at hkeys
    exact hkeys
  rw [← hformats, List.map_map] at hlabel
  obtain ⟨m, hm, rfl⟩ := List.mem_map.mp hlabel
  refine ⟨m.value.printed, ?_, get?_map hm hkeys'⟩
  change column m.label ms = _
  clear hkeys hkeys' hformats hlabel
  induction ms with
  | nil => cases hm
  | cons m' ms ih =>
    rw [List.map_cons, List.nodup_cons] at hlabels
    rw [column, List.flatMap_cons, ← column]
    cases List.mem_cons.mp hm with
    | inl heq =>
      have hrest : column m.label ms = [] := by
        rw [column, List.flatMap_eq_nil_iff]
        intro m'' hm''
        rw [if_neg]
        intro hsame
        exact hlabels.1 (heq ▸ hsame ▸ List.mem_map_of_mem hm'')
      rw [hrest, if_pos (congrArg Metric.label heq), heq]
      rfl
    | inr hlater =>
      have hne : m.label ≠ m'.label :=
        fun hsame => hlabels.1 (hsame ▸ List.mem_map_of_mem hlater)
      rw [if_neg hne]
      exact ih hlabels.2 hlater

theorem summary_column {input : StatsInput} {s : Summary} (hs : s ∈ input.summaries)
    {label : Text} (hlabel : label ∈ Avg.fields) :
    ∃ x, column label s.metrics = [x] ∧ valueOf s.metrics label = some (.number x) := by
  have hsubset : Avg.fields ⊆ summaryFormats.map Format.label := by decide
  exact column_eq (formats_summaries input s hs) ProcessConnectionStatsFiles.summaryKeys_nodup
    (hsubset hlabel)

theorem overall_column (input : StatsInput) {label : Text}
    (hlabel : label ∈ Avg2.fieldsToAverage) :
    ∃ x, column label input.overall = [x] ∧ valueOf input.overall label = some (.number x) := by
  have hsubset : Avg2.fieldsToAverage ⊆ overallFormats.map Format.label := by decide
  exact column_eq (format_overallMetrics _ _ _ _) ProcessConnectionStatsFiles.overallKeys_nodup
    (hsubset hlabel)

theorem flatMap_column {ss : List Summary} {label : Text}
    (h : ∀ s ∈ ss, ∃ x, column label s.metrics = [x] ∧
      valueOf s.metrics label = some (.number x)) :
    (ss.map fun s => valueOf s.metrics label) =
      (ss.flatMap fun s => column label s.metrics).map fun x => some (Value.number x) := by
  induction ss with
  | nil => rfl
  | cons s ss ih =>
    obtain ⟨x, hcolumn, hvalue⟩ := h s List.mem_cons_self
    rw [List.map_cons, List.flatMap_cons, hcolumn, hvalue,
      ih fun s' hs' => h s' (List.mem_cons_of_mem s hs')]
    rfl

/-! ## The keys of cdf -/

theorem renamed_cleanKey : (summaryFormats.all fun f =>
    decide (renamed (Cdf.cleanKey f.label) = ProcessConnectionStatsFiles.cleanKey f.label)) =
      true := by decide

theorem renamed_metricsOf {ms : List Metric} (hformats : ms.map Metric.format = summaryFormats) :
    (Cdf.metricsOf ms).map (fun entry => (renamed entry.1, Value.number entry.2)) =
      ProcessConnectionStatsFiles.metricsOf ms := by
  rw [Cdf.metricsOf, ProcessConnectionStatsFiles.metricsOf, dictionary, dictionary, List.map_map]
  refine List.map_congr_left fun m hm => ?_
  have hmem : m.format ∈ summaryFormats := hformats ▸ List.mem_map_of_mem hm
  have hkey := of_decide_eq_true (List.all_eq_true.mp renamed_cleanKey m.format hmem)
  exact congrArg (·, Value.number m.value.printed) hkey

/-! ## All together -/

theorem log_reads_back (input : StatsInput) (h : input.NonNegative) {log : Text}
    (hlog : writeStatsToFile input = some log) : ReadsBack input log := by
  constructor
  · exact ProcessConnectionStatsFiles.parseFile_log hlog
  · intro s hs
    have hformats := formats_summaries input s hs
    rw [ProcessConnectionStatsFiles.metricsOf, keys_dictionary, hformats]
    refine ⟨ProcessConnectionStatsFiles.summaryKeys_nodup, ?_⟩
    rw [← List.length_map (f := Metric.format), hformats]
    rfl
  · rw [ProcessConnectionStatsFiles.metricsOf, keys_dictionary, StatsInput.overall,
      format_overallMetrics]
    exact ⟨ProcessConnectionStatsFiles.overallKeys_nodup, rfl⟩
  · refine ⟨_, _, _, Cdf.parseFile_log hlog, ?_⟩
    rw [List.map_map]
    exact List.map_congr_left fun s hs => renamed_metricsOf (formats_summaries input s hs)
  · have hmem : Avg.persistentDuration ∈ Avg2.fieldsToAverage := by decide
    have hmem' : Avg.nonpersistentDuration ∈ Avg2.fieldsToAverage := by decide
    obtain ⟨persistent, hpersistent, hvalue⟩ := overall_column input hmem
    obtain ⟨nonpersistent, hnonpersistent, hvalue'⟩ := overall_column input hmem'
    refine ⟨_, _, _, Avg.loadFile_log h hlog, keys_map _ _, ?_, ?_, ?_⟩
    · intro entry hentry
      obtain ⟨label, hlabel, rfl⟩ := List.mem_map.mp hentry
      exact flatMap_column fun s hs => summary_column hs hlabel
    · rw [hpersistent]
      exact hvalue
    · rw [hnonpersistent]
      exact hvalue'
  · refine ⟨_, Avg2.loadFile_log h hlog, keys_map _ _, ?_⟩
    intro entry hentry
    obtain ⟨label, hlabel, rfl⟩ := List.mem_map.mp hentry
    obtain ⟨x, hcolumn, hvalue⟩ := overall_column input hlabel
    dsimp only
    rw [hcolumn, hvalue]
    rfl

/-- 70 connections: one full group and one of 20. -/
def seventyConnections : StatsInput where
  statsArray _ := ⟨⟨1000, 998, 77, 3, 4, 1234567, 89, 12345 / 1000000, 7, 8⟩, 1 / 3, 2 / 3, 5 / 2,
    1005 / 1000⟩
  count := 2
  connectionCount := 70
  totals := Totals.zero
  clocks := ⟨true, false, ⟨0, 0⟩, ⟨3, 5⟩, ⟨0, 0⟩, ⟨0, 0⟩, ⟨3, 5⟩⟩
  rejected := 3

theorem reads_back_seventyConnections : ∃ log, writeStatsToFile seventyConnections = some log ∧
    ReadsBack seventyConnections log := by
  have hnonneg : seventyConnections.NonNegative := by
    constructor <;> with_unfolding_all decide
  have hwritten : (writeStatsToFile seventyConnections).isSome = true := by decide
  obtain ⟨log, hlog⟩ := Option.isSome_iff_exists.mp hwritten
  exact ⟨log, hlog, log_reads_back seventyConnections hnonneg hlog⟩

end ConnectionOrder.Resultexp3
