import ConnectionOrder.Resultexp3.ReadBack
import Mathlib.Algebra.BigOperators.Group.List.Basic
import Mathlib.Data.List.Forall2

/-!
# The averages and ratios that are taken from several logs

average_metrics and main of process_connection_stats_files. What main prints, draws and
saves is left out, but for the question whether it draws the distribution of the ratios.
-/

namespace ConnectionOrder.Resultexp3

open PyText FixedPoint PyDict Rows StatsLog

namespace ProcessConnectionStatsFiles

/-- np.mean, without its rounding. -/
def mean (xs : List ℚ) : ℚ := xs.sum / xs.length

/-- isinstance of int or float. -/
def Value.number? : Value → Option ℚ
  | .number x => some x
  | .text _ => none

/-- One turn of the loop over the keys: `none` is a KeyError. -/
def averageKey (summaries : List Metrics) (avgStats : Dict Text ℚ) (key : Text) :
    Option (Dict Text ℚ) :=
  (summaries.mapM fun s => get? s key).map fun found =>
    let values := found.filterMap Value.number?
    if values = [] then avgStats else set avgStats key (mean values)

def averageMetrics (summaries : List Metrics) : Option (Dict Text ℚ) :=
  match summaries with
  | [] => some []
  | first :: _ => (keys first).foldlM (averageKey summaries) []

def persistentBytes : Text := "avg_persistent_bytes".toList
def nonPersistentBytes : Text := "avg_non_persistent_bytes".toList
def persistentRatio : Text := "avg_persistent_ratio".toList
def nonPersistentRatio : Text := "avg_non_persistent_ratio".toList

def bytesRatio (avgStatsAll : Dict Text ℚ) : Option ℚ :=
  match get? avgStatsAll persistentBytes, get? avgStatsAll nonPersistentBytes with
  | some persistent, some nonPersistent =>
    if nonPersistent ≠ 0 then some (persistent / nonPersistent) else none
  | _, _ => none

/-- The values of one key, in all summaries that have it. -/
def collectRatios (key : Text) (allConnectionSummaries : List (List Metrics)) : List Value :=
  allConnectionSummaries.flatten.filterMap fun summary => get? summary key

/-- The variables of main at its end. -/
structure Results where
  avgStatsAll : Dict Text ℚ
  avgOverall : Dict Text ℚ
  bytesRatio : Option ℚ
  persistentRatios : List Value
  nonPersistentRatios : List Value

def Results.drawsCdf (r : Results) : Bool := r.persistentRatios ≠ [] ∧ r.nonPersistentRatios ≠ []

/-- An average is a float again. -/
def numbers (d : Dict Text ℚ) : Metrics := mapValues Value.number d

/-- The inner `none` is the return for want of valid data. -/
def main (files : List (Option Text)) : Option (Option Results) :=
  (files.mapM parseFile).bind fun parsed =>
    let allConnectionSummaries := (parsed.map Prod.fst).filter (· ≠ [])
    let allOverallSummaries := (parsed.map Prod.snd).filter (· ≠ [])
    if allConnectionSummaries = [] ∨ allOverallSummaries = [] then some none
    else
      (allConnectionSummaries.mapM averageMetrics).bind fun averages =>
        let avgStatsPerFile := averages.filter (· ≠ [])
        (averageMetrics (avgStatsPerFile.map numbers)).bind fun avgStatsAll =>
          (averageMetrics allOverallSummaries).map fun avgOverall =>
            some
              { avgStatsAll
                avgOverall
                bytesRatio := bytesRatio avgStatsAll
                persistentRatios := collectRatios persistentRatio allConnectionSummaries
                nonPersistentRatios := collectRatios nonPersistentRatio allConnectionSummaries }

/-! ## Dictionaries of numbers under the same keys -/

/-- The value of a key that is there. -/
def valueAt (d : Dict Text ℚ) (key : Text) : ℚ := (get? d key).getD 0

def averagesOf (ks : List Text) (ds : List (Dict Text ℚ)) : Dict Text ℚ :=
  ks.map fun key => (key, mean (ds.map fun d => valueAt d key))

theorem keys_averagesOf (ks : List Text) (ds : List (Dict Text ℚ)) :
    keys (averagesOf ks ds) = ks := keys_map ks _

section SameKeys

variable {ks : List Text} {ds : List (Dict Text ℚ)} (hne : ds ≠ [])
  (hkeys : ∀ d ∈ ds, keys d = ks)
include hne hkeys

theorem averageKey_numbers {key : Text} (hkey : key ∈ ks) (avgStats : Dict Text ℚ) :
    averageKey (ds.map numbers) avgStats key =
      some (set avgStats key (mean (ds.map fun d => valueAt d key))) := by
  have hfound : (ds.map numbers).mapM (fun s => get? s key) =
      some (ds.map fun d => Value.number (valueAt d key)) := by
    rw [List.mapM_map]
    apply mapM_eq_map
    intro d hd
    obtain ⟨x, hx⟩ := get?_of_mem (hkeys d hd ▸ hkey)
    change get? (numbers d) key = _
    rw [numbers, get?_mapValues, valueAt, hx]
    rfl
  have hvalues : (ds.map fun d => Value.number (valueAt d key)).filterMap Value.number? =
      ds.map fun d => valueAt d key := by
    rw [List.filterMap_map]
    exact congrFun List.filterMap_eq_map ds
  have hsome : (ds.map fun d => valueAt d key) ≠ [] := fun hnil => hne (List.map_eq_nil_iff.mp hnil)
  rw [averageKey, hfound, Option.map_some, hvalues]
  exact congrArg some (if_neg hsome)

theorem foldlM_averageKey {ks' : List Text} (hsub : ks' ⊆ ks) (avgStats : Dict Text ℚ) :
    ks'.foldlM (averageKey (ds.map numbers)) avgStats =
      some ((averagesOf ks' ds).foldl (fun d entry => set d entry.1 entry.2) avgStats) := by
  induction ks' generalizing avgStats with
  | nil => rfl
  | cons key ks' ih =>
    rw [List.foldlM_cons, averageKey_numbers hne hkeys (hsub List.mem_cons_self)]
    exact ih (fun k hk => hsub (List.mem_cons_of_mem key hk)) _

/-- No key is missing, and the average of each is the mean of its values. -/
theorem averageMetrics_numbers (hnodup : ks.Nodup) :
    averageMetrics (ds.map numbers) = some (averagesOf ks ds) := by
  have hentries : (keys ([] ++ averagesOf ks ds)).Nodup := by
    rw [List.nil_append, keys_averagesOf]
    exact hnodup
  cases hds : ds with
  | nil => exact absurd hds hne
  | cons d ds' =>
    have hfold := foldlM_averageKey hne hkeys (List.Subset.refl ks) []
    rw [foldl_set hentries, List.nil_append, hds] at hfold
    have hfirst : keys (numbers d) = ks := by
      rw [numbers, keys_mapValues]
      exact hkeys d (hds ▸ List.mem_cons_self)
    rw [List.map_cons, averageMetrics, hfirst, ← List.map_cons]
    exact hfold

end SameKeys

theorem valueAt_averagesOf {ks : List Text} (hnodup : ks.Nodup) {key : Text} (hkey : key ∈ ks)
    (ds : List (Dict Text ℚ)) :
    valueAt (averagesOf ks ds) key = mean (ds.map fun d => valueAt d key) := by
  have hnodup' : (ks.map fun k => k).Nodup := by rwa [List.map_id']
  rw [valueAt, averagesOf, get?_map hkey hnodup', Option.getD_some]

/-! ## The dictionaries of a log -/

def keysOf (formats : List Format) : List Text := formats.map fun f => cleanKey f.label

theorem keysOf_summaryFormats_nodup : (keysOf summaryFormats).Nodup := summaryKeys_nodup

theorem keysOf_overallFormats_nodup : (keysOf overallFormats).Nodup := overallKeys_nodup

/-- The numbers of a group under the keys of parse_file. -/
def printed (ms : List Metric) : Dict Text ℚ := dictionary cleanKey id ms

theorem numbers_printed (ms : List Metric) : numbers (printed ms) = metricsOf ms := by
  rw [numbers, mapValues, printed, metricsOf, dictionary, dictionary, List.map_map]
  rfl

theorem keys_printed {ms : List Metric} {formats : List Format}
    (hformats : ms.map Metric.format = formats) : keys (printed ms) = keysOf formats := by
  rw [printed, keys_dictionary, hformats, keysOf]

def groupsOf (input : StatsInput) : List (Dict Text ℚ) :=
  input.summaries.map fun s => printed s.metrics

theorem keys_groupsOf (input : StatsInput) :
    ∀ d ∈ groupsOf input, keys d = keysOf summaryFormats := by
  intro d hd
  obtain ⟨s, hs, rfl⟩ := List.mem_map.mp hd
  exact keys_printed (formats_summaries input s hs)

theorem keys_overall (input : StatsInput) :
    keys (printed input.overall) = keysOf overallFormats :=
  keys_printed (format_overallMetrics _ _ _ _)

theorem groups_ne_nil {input : StatsInput} (h : 0 < input.count) {α : Type}
    {f : Summary → α} : input.summaries.map f ≠ [] := by
  rw [StatsInput.summaries, List.map_map]
  intro hnil
  rw [List.map_eq_nil_iff, List.range_eq_nil] at hnil
  omega

theorem column_summary {input : StatsInput} {s : Summary} (hs : s ∈ input.summaries)
    {label : Text} (hlabel : label ∈ summaryFormats.map Format.label) :
    column label s.metrics = [valueAt (printed s.metrics) (cleanKey label)] ∧
      get? (metricsOf s.metrics) (cleanKey label) =
        some (.number (valueAt (printed s.metrics) (cleanKey label))) := by
  obtain ⟨x, hcolumn, hvalue⟩ := column_eq (formats_summaries input s hs) summaryKeys_nodup
    hlabel
  rw [valueOf] at hvalue
  have hnumber := hvalue
  rw [← numbers_printed, numbers, get?_mapValues, Option.map_eq_some_iff] at hnumber
  obtain ⟨y, hy, heq⟩ := hnumber
  cases heq
  rw [valueAt, hy, Option.getD_some]
  exact ⟨hcolumn, hvalue⟩

/-! ## main on the logs of server_epx3 -/

/-- The mean over the files of the mean over the summaries of a file. -/
def averaged (label : Text) (inputs : List StatsInput) : ℚ :=
  mean (inputs.map fun input => mean (input.summaries.flatMap fun s => column label s.metrics))

def avgStatsAll (inputs : List StatsInput) : Dict Text ℚ :=
  averagesOf (keysOf summaryFormats)
    (inputs.map fun input => averagesOf (keysOf summaryFormats) (groupsOf input))

def resultsOf (inputs : List StatsInput) : Results :=
  let allConnectionSummaries :=
    inputs.map fun input => input.summaries.map fun s => metricsOf s.metrics
  { avgStatsAll := avgStatsAll inputs
    avgOverall :=
      averagesOf (keysOf overallFormats) (inputs.map fun input => printed input.overall)
    bytesRatio := bytesRatio (avgStatsAll inputs)
    persistentRatios := collectRatios persistentRatio allConnectionSummaries
    nonPersistentRatios := collectRatios nonPersistentRatio allConnectionSummaries }

theorem averageMetrics_groups {input : StatsInput} (h : 0 < input.count) :
    averageMetrics (input.summaries.map fun s => metricsOf s.metrics) =
      some (averagesOf (keysOf summaryFormats) (groupsOf input)) := by
  have hmetrics : (input.summaries.map fun s => metricsOf s.metrics) =
      (groupsOf input).map numbers := by
    rw [groupsOf, List.map_map]
    exact List.map_congr_left fun s _ => (numbers_printed s.metrics).symm
  rw [hmetrics]
  exact averageMetrics_numbers (groups_ne_nil h) (keys_groupsOf input)
    keysOf_summaryFormats_nodup

theorem averageMetrics_overall {inputs : List StatsInput} (hne : inputs ≠ []) :
    averageMetrics (inputs.map fun input => metricsOf input.overall) =
      some
        (averagesOf (keysOf overallFormats) (inputs.map fun input => printed input.overall)) := by
  have hmetrics : (inputs.map fun input => metricsOf input.overall) =
      (inputs.map fun input => printed input.overall).map numbers := by
    rw [List.map_map]
    exact List.map_congr_left fun input _ => (numbers_printed input.overall).symm
  rw [hmetrics]
  refine averageMetrics_numbers (fun hnil => hne (List.map_eq_nil_iff.mp hnil)) ?_
    keysOf_overallFormats_nodup
  intro d hd
  obtain ⟨input, _, rfl⟩ := List.mem_map.mp hd
  exact keys_overall input

theorem filter_map_ne_nil {α β : Type} [DecidableEq α] {xs : List β} {f : β → List α}
    (h : ∀ x ∈ xs, f x ≠ []) : (xs.map f).filter (fun ys => decide (ys ≠ [])) = xs.map f := by
  rw [List.filter_eq_self]
  intro ys hys
  obtain ⟨x, hx, rfl⟩ := List.mem_map.mp hys
  exact decide_eq_true (h x hx)

section Logs

variable {inputs : List StatsInput} {logs : List Text}
  (hlogs : List.Forall₂ (fun input log => writeStatsToFile input = some log) inputs logs)
include hlogs

theorem mapM_parseFile : (logs.map some).mapM parseFile =
    some (inputs.map fun input =>
      (input.summaries.map fun s => metricsOf s.metrics, metricsOf input.overall)) := by
  induction hlogs with
  | nil => rfl
  | cons hlog _ ih =>
    rw [List.map_cons, List.mapM_cons, parseFile_log hlog, ih]
    rfl

theorem main_logs (hne : inputs ≠ []) (hcount : ∀ input ∈ inputs, 0 < input.count) :
    main (logs.map some) = some (some (resultsOf inputs)) := by
  let parsed := inputs.map fun input =>
    (input.summaries.map fun s => metricsOf s.metrics, metricsOf input.overall)
  let averages := inputs.map fun input => averagesOf (keysOf summaryFormats) (groupsOf input)
  have hsummaries : (parsed.map Prod.fst).filter (fun d => decide (d ≠ [])) =
      inputs.map fun input => input.summaries.map fun s => metricsOf s.metrics := by
    rw [List.map_map]
    exact filter_map_ne_nil fun input hinput => groups_ne_nil (hcount input hinput)
  have hoverall : (parsed.map Prod.snd).filter (fun d => decide (d ≠ [])) =
      inputs.map fun input => metricsOf input.overall := by
    rw [List.map_map]
    exact filter_map_ne_nil fun input _ => List.cons_ne_nil _ _
  have haverages : (inputs.map fun input => input.summaries.map fun s =>
      metricsOf s.metrics).mapM averageMetrics = some averages := by
    rw [List.mapM_map]
    exact mapM_eq_map fun input hinput => averageMetrics_groups (hcount input hinput)
  have hfull : averages.filter (fun d => decide (d ≠ [])) = averages :=
    filter_map_ne_nil fun input _ => List.cons_ne_nil _ _
  have hkeys : ∀ d ∈ averages, keys d = keysOf summaryFormats := by
    intro d hd
    obtain ⟨input, _, rfl⟩ := List.mem_map.mp hd
    exact keys_averagesOf _ _
  have hall : averageMetrics (averages.map numbers) = some (avgStatsAll inputs) :=
    averageMetrics_numbers (fun hnil => hne (List.map_eq_nil_iff.mp hnil)) hkeys
      keysOf_summaryFormats_nodup
  have hvalid : ¬((inputs.map fun input => input.summaries.map fun s => metricsOf s.metrics) = [] ∨
      (inputs.map fun input => metricsOf input.overall) = []) := by
    rw [List.map_eq_nil_iff, List.map_eq_nil_iff, or_self]
    exact hne
  rw [main, mapM_parseFile hlogs, Option.bind_some]
  dsimp only
  rw [hsummaries, hoverall, if_neg hvalid, haverages, Option.bind_some, hfull, hall,
    Option.bind_some, averageMetrics_overall hne, Option.map_some]
  rfl

end Logs

/-! ## The keys that main looks up -/

namespace Label

def persistentBytes : Text := "Avg Persistent bytes read".toList
def nonPersistentBytes : Text := "Avg Non-persistent bytes read".toList
def persistentRatio : Text := "Avg Persistent ratio".toList
def nonPersistentRatio : Text := "Avg Non-persistent ratio".toList

end Label

/-- One value for each summary, the one that is printed behind the label. -/
def OnePerSummary (label : Text) (inputs : List StatsInput) (values : List Value) : Prop :=
  (values.map fun value => [value]) =
    (inputs.flatMap StatsInput.summaries).map fun s => (column label s.metrics).map Value.number

/-- What main is for. -/
structure MetricsFound (inputs : List StatsInput) (r : Results) : Prop where
  bytesRatio : averaged Label.nonPersistentBytes inputs ≠ 0 →
    r.bytesRatio = some
      (averaged Label.persistentBytes inputs / averaged Label.nonPersistentBytes inputs)
  persistentRatios : OnePerSummary Label.persistentRatio inputs r.persistentRatios
  nonPersistentRatios : OnePerSummary Label.nonPersistentRatio inputs r.nonPersistentRatios
  cdf : r.drawsCdf = true

/-- The labels have a hyphen that the keys of main do not have, and end in `read`. -/
theorem keys_missing : persistentBytes ∉ keysOf summaryFormats ∧
    nonPersistentBytes ∉ keysOf summaryFormats ∧ nonPersistentRatio ∉ keysOf summaryFormats := by
  decide

theorem bytesRatio_eq_none {avgStatsAll : Dict Text ℚ} (h : persistentBytes ∉ keys avgStatsAll) :
    bytesRatio avgStatsAll = none := by
  rw [bytesRatio, get?_eq_none h]

theorem bytesRatio_results (inputs : List StatsInput) : (resultsOf inputs).bytesRatio = none := by
  have hmissing : persistentBytes ∉ keys (avgStatsAll inputs) := by
    rw [avgStatsAll, keys_averagesOf]
    exact keys_missing.1
  exact bytesRatio_eq_none hmissing

theorem collectRatios_log (key : Text) (inputs : List StatsInput) :
    collectRatios key (inputs.map fun input => input.summaries.map fun s => metricsOf s.metrics) =
      (inputs.flatMap StatsInput.summaries).filterMap fun s => get? (metricsOf s.metrics) key := by
  have hflatten : (inputs.map fun input => input.summaries.map fun s =>
      metricsOf s.metrics).flatten =
      (inputs.flatMap StatsInput.summaries).map fun s => metricsOf s.metrics := by
    rw [← List.flatMap_def, List.map_flatMap]
  rw [collectRatios, hflatten, List.filterMap_map]
  rfl

theorem nonPersistentRatios_results (inputs : List StatsInput) :
    (resultsOf inputs).nonPersistentRatios = [] := by
  change collectRatios nonPersistentRatio _ = []
  rw [collectRatios_log, List.filterMap_eq_nil_iff]
  intro s hs
  obtain ⟨input, _, hs⟩ := List.mem_flatMap.mp hs
  apply get?_eq_none
  rw [← numbers_printed, numbers, keys_mapValues, keys_printed (formats_summaries input s hs)]
  exact keys_missing.2.2

/-- The key of the persistent ratio is the one that parse_file gives it. -/
theorem persistentRatios_results (inputs : List StatsInput) :
    OnePerSummary Label.persistentRatio inputs (resultsOf inputs).persistentRatios := by
  have hlabel : Label.persistentRatio ∈ summaryFormats.map Format.label := by decide
  have hkey : cleanKey Label.persistentRatio = persistentRatio := by decide
  change List.map _ (collectRatios persistentRatio _) = _
  rw [collectRatios_log, ← hkey]
  generalize hsummaries : inputs.flatMap StatsInput.summaries = summaries
  have hcolumn : ∀ s ∈ summaries, ∃ x, column Label.persistentRatio s.metrics = [x] ∧
      get? (metricsOf s.metrics) (cleanKey Label.persistentRatio) = some (.number x) := by
    intro s hs
    obtain ⟨input, _, hs⟩ := List.mem_flatMap.mp (hsummaries ▸ hs)
    exact ⟨_, column_summary hs hlabel⟩
  clear hsummaries
  induction summaries with
  | nil => rfl
  | cons s summaries ih =>
    obtain ⟨x, hcolumn', hfound⟩ := hcolumn s List.mem_cons_self
    rw [List.filterMap_cons, hfound, List.map_cons, List.map_cons, hcolumn',
      ih fun s' hs' => hcolumn s' (List.mem_cons_of_mem s hs')]
    rfl

theorem not_onePerSummary_nil {inputs : List StatsInput} (hne : inputs ≠ [])
    (hcount : ∀ input ∈ inputs, 0 < input.count) (label : Text) :
    ¬OnePerSummary label inputs [] := by
  intro h
  obtain ⟨input, hinput⟩ := List.exists_mem_of_ne_nil inputs hne
  have hnil : inputs.flatMap StatsInput.summaries = [] := List.map_eq_nil_iff.mp h.symm
  have hsummaries := List.flatMap_eq_nil_iff.mp hnil input hinput
  exact groups_ne_nil (hcount input hinput) (List.map_eq_nil_iff (f := id).mpr hsummaries)

theorem not_metricsFound {inputs : List StatsInput} (hne : inputs ≠ [])
    (hcount : ∀ input ∈ inputs, 0 < input.count) : ¬MetricsFound inputs (resultsOf inputs) := by
  intro h
  have hratios := h.nonPersistentRatios
  rw [nonPersistentRatios_results] at hratios
  exact not_onePerSummary_nil hne hcount _ hratios

/-- Of the four metrics only the persistent ratio is found. -/
theorem metrics_never_found {inputs : List StatsInput} {logs : List Text}
    (hlogs : List.Forall₂ (fun input log => writeStatsToFile input = some log) inputs logs)
    (hne : inputs ≠ []) (hcount : ∀ input ∈ inputs, 0 < input.count) :
    ∃ r, main (logs.map some) = some (some r) ∧ ¬MetricsFound inputs r ∧
      r.bytesRatio = none ∧ r.nonPersistentRatios = [] ∧ r.drawsCdf = false ∧
      OnePerSummary Label.persistentRatio inputs r.persistentRatios := by
  refine ⟨resultsOf inputs, main_logs hlogs hne hcount, not_metricsFound hne hcount,
    bytesRatio_results inputs, nonPersistentRatios_results inputs, ?_,
    persistentRatios_results inputs⟩
  rw [Results.drawsCdf, nonPersistentRatios_results, decide_eq_false_iff_not]
  exact fun hboth => hboth.2 rfl

theorem metrics_never_found_seventyConnections : ∃ log r,
    writeStatsToFile seventyConnections = some log ∧
      main [some log] = some (some r) ∧ ¬MetricsFound [seventyConnections] r := by
  have hwritten : (writeStatsToFile seventyConnections).isSome = true := by decide
  obtain ⟨log, hlog⟩ := Option.isSome_iff_exists.mp hwritten
  obtain ⟨r, hmain, hnot, _⟩ := metrics_never_found (.cons hlog .nil)
    (List.cons_ne_nil seventyConnections []) (by decide)
  exact ⟨log, r, hlog, hmain, hnot⟩

/-- The averaged bytes are not 0, and there are two summaries, yet neither the ratio of the
bytes nor a non-persistent ratio is found. -/
theorem metrics_missed_seventyConnections : ∃ log r,
    writeStatsToFile seventyConnections = some log ∧ main [some log] = some (some r) ∧
      averaged Label.nonPersistentBytes [seventyConnections] ≠ 0 ∧ r.bytesRatio = none ∧
      seventyConnections.summaries.length = 2 ∧ r.nonPersistentRatios = [] ∧
      ¬MetricsFound [seventyConnections] r := by
  have hwritten : (writeStatsToFile seventyConnections).isSome = true := by decide
  have hbytes : averaged Label.nonPersistentBytes [seventyConnections] ≠ 0 := by
    with_unfolding_all decide
  have hne := List.cons_ne_nil seventyConnections []
  have hcount : ∀ input ∈ [seventyConnections], 0 < input.count := by decide
  obtain ⟨log, hlog⟩ := Option.isSome_iff_exists.mp hwritten
  exact ⟨log, resultsOf [seventyConnections], hlog, main_logs (.cons hlog .nil) hne hcount, hbytes,
    bytesRatio_results _, rfl, nonPersistentRatios_results _, not_metricsFound hne hcount⟩

end ProcessConnectionStatsFiles

end ConnectionOrder.Resultexp3
