import ConnectionOrder.EmpiricalCdf
import ConnectionOrder.Resultexp3.GroupMeans

/-!
# The scripts against one another

main of avg and avg2, next to cdf and process_connection_stats_files. What they print is
left out, but for the numbers.
-/

namespace ConnectionOrder.Resultexp3

open PyText PyDict StatsLog EmpiricalCdf
open ProcessConnectionStatsFiles (mean averagesOf valueAt numbers)

/-- np.mean; `none` is nan. -/
def npMean (values : List ℚ) : Option ℚ := if values = [] then none else some (mean values)

/-- calculate_averages of avg and of avg2. -/
def calculateAverages (mergedFields : Dict Text (List ℚ)) : Dict Text (Option ℚ) :=
  mapValues npMean mergedFields

namespace Avg

/-- One turn of the inner loop of merge_fields. -/
def mergeKey (merged : Dict Text (List ℚ)) (entry : Text × List ℚ) : Dict Text (List ℚ) :=
  if entry.1 ∉ keys merged then set merged entry.1 entry.2
  else set merged entry.1 ((get? merged entry.1).getD [] ++ entry.2)

def mergeFields (fieldsList : List (Dict Text (List ℚ))) : Dict Text (List ℚ) :=
  fieldsList.foldl (fun merged fields => fields.foldl mergeKey merged) []

def persistentRatio : Text := "Avg Persistent ratio".toList
def nonPersistentRatio : Text := "Avg Non-persistent ratio".toList

structure Results where
  avgFields : Dict Text (Option ℚ)
  avgPersistentDuration : Option ℚ
  avgNonpersistentDuration : Option ℚ
  persistentCurve : List (ℚ × ℚ)
  nonPersistentCurve : List (ℚ × ℚ)

/-- `none` is an exception, such as the KeyError of the last lines where no file is given. -/
def main (files : List (Option Text)) : Option Results :=
  (files.mapM loadFile).bind fun loaded =>
    let mergedFields := mergeFields (loaded.map Prod.fst)
    (get? mergedFields persistentRatio).bind fun persistent =>
      (get? mergedFields nonPersistentRatio).map fun nonPersistent =>
        { avgFields := calculateAverages mergedFields
          avgPersistentDuration := npMean (loaded.map fun file => file.2.1)
          avgNonpersistentDuration := npMean (loaded.map fun file => file.2.2)
          persistentCurve := points persistent
          nonPersistentCurve := points nonPersistent }

end Avg

namespace Avg2

/-- No field is missing from the start, so none raises a KeyError. -/
def mergeFields (fieldsList : List (Dict Text (List ℚ))) : Dict Text (List ℚ) :=
  fieldsList.foldl (fun merged fields => fields.foldl Avg.mergeKey merged)
    (fieldsToAverage.map fun field => (field, []))

def main (files : List (Option Text)) : Option (Dict Text (Option ℚ)) :=
  (files.mapM loadFile).map fun loaded => calculateAverages (mergeFields loaded)

end Avg2

namespace Cdf

/-- The averages and the curve that main draws, where there is data. -/
def main (files : List (Option Text)) : Option (Option (Dict Text ℚ × List (ℚ × ℚ))) :=
  (computeOverallAveragesAndRatios files).map fun results =>
    results.1.map fun overallAvg => (overallAvg, points results.2.1)

end Cdf

/-! ## Merging dictionaries with the same keys -/

section Merge

variable {ks : List Text}

theorem set_same {key : Text} (hkey : key ∈ ks) (f : Text → List ℚ) (values : List ℚ) :
    set (ks.map fun k => (k, f k)) key values =
      ks.map fun k => (k, if k = key then values else f k) := by
  rw [PyDict.set, keys_map, if_pos hkey, List.map_map]
  refine List.map_congr_left fun k _ => ?_
  dsimp only [Function.comp_apply]
  split
  · rename_i hsame
    rw [hsame]
  · rfl

variable (hnodup : ks.Nodup)
include hnodup

theorem mergeKey_same {key : Text} (hkey : key ∈ ks) (f : Text → List ℚ) (values : List ℚ) :
    Avg.mergeKey (ks.map fun k => (k, f k)) (key, values) =
      ks.map fun k => (k, if k = key then f k ++ values else f k) := by
  have hget : get? (ks.map fun k => (k, f k)) key = some (f key) := by
    have hnodup' : (ks.map fun k => k).Nodup := by rwa [List.map_id']
    exact get?_map hkey hnodup'
  rw [Avg.mergeKey, keys_map, if_neg (not_not_intro hkey), hget, Option.getD_some,
    set_same hkey]
  refine List.map_congr_left fun k _ => ?_
  split
  · rename_i hsame
    rw [hsame]
  · rfl

/-- The keys in `ks'` have been merged, the others not yet. -/
theorem foldl_mergeKey {ks' : List Text} (hsub : ks' ⊆ ks) (hnodup' : ks'.Nodup)
    (f g : Text → List ℚ) :
    (ks'.map fun k => (k, g k)).foldl Avg.mergeKey (ks.map fun k => (k, f k)) =
      ks.map fun k => (k, if k ∈ ks' then f k ++ g k else f k) := by
  induction ks' generalizing f with
  | nil => simp
  | cons key ks' ih =>
    obtain ⟨hnew, hrest⟩ := List.nodup_cons.mp hnodup'
    rw [List.map_cons, List.foldl_cons, mergeKey_same hnodup (hsub List.mem_cons_self),
      ih (fun k hk => hsub (List.mem_cons_of_mem key hk)) hrest]
    refine List.map_congr_left fun k _ => ?_
    rcases eq_or_ne k key with rfl | hne
    · rw [if_neg hnew, if_pos rfl, if_pos List.mem_cons_self]
    · simp only [List.mem_cons, hne, false_or, if_false]

theorem foldl_mergeKey_self (f g : Text → List ℚ) :
    (ks.map fun k => (k, g k)).foldl Avg.mergeKey (ks.map fun k => (k, f k)) =
      ks.map fun k => (k, f k ++ g k) := by
  rw [foldl_mergeKey hnodup (List.Subset.refl ks) hnodup]
  refine List.map_congr_left fun k hk => ?_
  rw [if_pos hk]

theorem foldl_mergeKey_nil (g : Text → List ℚ) :
    (ks.map fun k => (k, g k)).foldl Avg.mergeKey [] = ks.map fun k => (k, g k) := by
  have hall : ∀ (entries d : Dict Text (List ℚ)), (keys (d ++ entries)).Nodup →
      entries.foldl Avg.mergeKey d = d ++ entries := by
    intro entries
    induction entries with
    | nil => exact fun d _ => (List.append_nil d).symm
    | cons entry entries ih =>
      intro d hd
      have hnew : entry.1 ∉ keys d := by
        intro hmem
        rw [keys, List.map_append, List.map_cons] at hd
        exact (List.nodup_append.mp hd).2.2 _ hmem _ List.mem_cons_self rfl
      rw [List.append_cons] at hd
      rw [List.foldl_cons, Avg.mergeKey, if_pos hnew, set_new hnew, ih _ hd, ← List.append_cons]
  apply hall
  rw [List.nil_append, keys_map]
  exact hnodup

theorem foldl_merge {β : Type} (g : β → Text → List ℚ) (xs : List β) (f : Text → List ℚ) :
    (xs.map fun x => ks.map fun k => (k, g x k)).foldl
        (fun merged fields => fields.foldl Avg.mergeKey merged) (ks.map fun k => (k, f k)) =
      ks.map fun k => (k, f k ++ xs.flatMap fun x => g x k) := by
  induction xs generalizing f with
  | nil => simp
  | cons x xs ih =>
    rw [List.map_cons, List.foldl_cons, foldl_mergeKey_self hnodup, ih]
    refine List.map_congr_left fun k _ => ?_
    rw [List.flatMap_cons, List.append_assoc]

theorem Avg.mergeFields_eq {β : Type} (g : β → Text → List ℚ) {xs : List β} (hne : xs ≠ []) :
    Avg.mergeFields (xs.map fun x => ks.map fun k => (k, g x k)) =
      ks.map fun k => (k, xs.flatMap fun x => g x k) := by
  cases xs with
  | nil => exact absurd rfl hne
  | cons x xs =>
    rw [Avg.mergeFields, List.map_cons, List.foldl_cons, foldl_mergeKey_nil hnodup,
      foldl_merge hnodup]
    refine List.map_congr_left fun k _ => ?_
    rw [List.flatMap_cons]

end Merge

/-! ## The numbers behind a label -/

theorem printed_mem_column {ms : List Metric} {m : Metric} (hm : m ∈ ms) :
    m.value.printed ∈ column m.label ms :=
  List.mem_flatMap.mpr ⟨m, hm, by rw [if_pos rfl]; exact List.mem_cons_self⟩

/-- The number under a script's key is the one that the search for the label finds. -/
theorem column_eq_valueAt {ms : List Metric} {formats : List Format}
    (hformats : ms.map Metric.format = formats)
    (hkeys : (formats.map fun f => ProcessConnectionStatsFiles.cleanKey f.label).Nodup)
    {cleanKey : Text → Text} (hnodup : (formats.map fun f => cleanKey f.label).Nodup)
    {label : Text} (hlabel : label ∈ formats.map Format.label) :
    column label ms = [valueAt (dictionary cleanKey id ms) (cleanKey label)] := by
  obtain ⟨x, hcolumn, _⟩ := column_eq hformats hkeys hlabel
  rw [← hformats, List.map_map] at hlabel hnodup
  obtain ⟨m, hm, rfl⟩ := List.mem_map.mp hlabel
  have hvalue : get? (dictionary cleanKey id ms) (cleanKey m.label) = some m.value.printed :=
    get?_map hm hnodup
  have hx := printed_mem_column hm
  change column m.label ms = [x] at hcolumn
  rw [hcolumn, List.mem_singleton] at hx
  change column m.label ms = [valueAt _ (cleanKey m.label)]
  rw [hcolumn, valueAt, hvalue, Option.getD_some, hx]

/-- What the logs have behind this label, summary by summary. -/
def samples (label : Text) (inputs : List StatsInput) : List ℚ :=
  inputs.flatMap fun input => input.summaries.flatMap fun s => column label s.metrics

def overallSamples (label : Text) (inputs : List StatsInput) : List ℚ :=
  inputs.flatMap fun input => column label input.overall

theorem samples_eq {label : Text} (hlabel : label ∈ Avg.fields) (inputs : List StatsInput) :
    samples label inputs = (inputs.flatMap (groupsAs Number.printed Cdf.cleanKey)).map
      fun d => valueAt d (Cdf.cleanKey label) := by
  have hsubset : Avg.fields ⊆ summaryFormats.map Format.label := by decide
  rw [samples, List.map_flatMap]
  refine List.flatMap_congr fun input _ => ?_
  rw [groupsAs, List.map_map, List.map_eq_flatMap]
  exact List.flatMap_congr fun s hs => column_eq_valueAt (formats_summaries input s hs)
    ProcessConnectionStatsFiles.summaryKeys_nodup Cdf.summaryKeys_nodup (hsubset hlabel)

theorem overallSamples_eq {label : Text} (hlabel : label ∈ Avg2.fieldsToAverage)
    (inputs : List StatsInput) :
    overallSamples label inputs = inputs.map fun input =>
      valueAt (ProcessConnectionStatsFiles.printed input.overall)
        (ProcessConnectionStatsFiles.cleanKey label) := by
  have hsubset : Avg2.fieldsToAverage ⊆ overallFormats.map Format.label := by decide
  rw [overallSamples, List.map_eq_flatMap]
  exact List.flatMap_congr fun input _ => column_eq_valueAt (format_overallMetrics _ _ _ _)
    ProcessConnectionStatsFiles.overallKeys_nodup ProcessConnectionStatsFiles.overallKeys_nodup
    (hsubset hlabel)

/-- cdf collects the ratios by its key, avg by the label. -/
theorem ratiosOf_eq {ms : List Metric} (hformats : ms.map Metric.format = summaryFormats) :
    Cdf.ratiosOf Cdf.persistentRatio ms = column Avg.persistentRatio ms := by
  have hlabels : (summaryFormats.all fun f =>
      decide (Cdf.cleanKey f.label = Cdf.persistentRatio ↔ Avg.persistentRatio = f.label)) =
        true := by decide
  rw [Cdf.ratiosOf, column]
  refine List.flatMap_congr fun m hm => ?_
  have hmem : m.format ∈ summaryFormats := hformats ▸ List.mem_map_of_mem hm
  have hlabel := of_decide_eq_true (List.all_eq_true.mp hlabels m.format hmem)
  exact if_congr hlabel rfl rfl

/-! ## The scripts on the logs of server_epx3 -/

section Logs

variable {inputs : List StatsInput} {logs : List Text}
  (hlogs : List.Forall₂ (fun input log => writeStatsToFile input = some log) inputs logs)
include hlogs

theorem mapM_logs {α : Type} {load : Option Text → Option α} {content : StatsInput → α}
    (hload : ∀ input ∈ inputs, ∀ log, writeStatsToFile input = some log →
      load (some log) = some (content input)) :
    (logs.map some).mapM load = some (inputs.map content) := by
  induction hlogs with
  | nil => rfl
  | cons hlog _ ih =>
    rw [List.map_cons, List.mapM_cons, hload _ List.mem_cons_self _ hlog,
      ih fun input hinput => hload input (List.mem_cons_of_mem _ hinput)]
    rfl

theorem Avg.main_logs (hnonneg : ∀ input ∈ inputs, input.NonNegative) (hne : inputs ≠ []) :
    Avg.main (logs.map some) = some
      { avgFields := Avg.fields.map fun label => (label, npMean (samples label inputs))
        avgPersistentDuration := npMean (overallSamples Avg.persistentDuration inputs)
        avgNonpersistentDuration := npMean (overallSamples Avg.nonpersistentDuration inputs)
        persistentCurve := points (samples Avg.persistentRatio inputs)
        nonPersistentCurve := points (samples Avg.nonPersistentRatio inputs) } := by
  have hnodup : Avg.fields.Nodup := by decide
  let content (input : StatsInput) : Dict Text (List ℚ) × ℚ × ℚ :=
    (Avg.fields.map fun field => (field, input.summaries.flatMap fun s => column field s.metrics),
      (column Avg.persistentDuration input.overall).headD 0,
      (column Avg.nonpersistentDuration input.overall).headD 0)
  have hloaded : (logs.map some).mapM Avg.loadFile = some (inputs.map content) :=
    mapM_logs hlogs fun input hinput log hlog => Avg.loadFile_log (hnonneg input hinput) hlog
  have hmerged : Avg.mergeFields ((inputs.map content).map Prod.fst) =
      Avg.fields.map fun label => (label, samples label inputs) := by
    rw [List.map_map]
    exact Avg.mergeFields_eq hnodup (fun input field =>
      input.summaries.flatMap fun s => column field s.metrics) hne
  have hget : ∀ label ∈ Avg.fields,
      get? (Avg.fields.map fun label => (label, samples label inputs)) label =
        some (samples label inputs) := by
    intro label hlabel
    have hnodup' : (Avg.fields.map fun label => label).Nodup := by rwa [List.map_id']
    exact get?_map hlabel hnodup'
  have hduration : ∀ label ∈ Avg2.fieldsToAverage,
      (inputs.map fun input => (column label input.overall).headD 0) =
        overallSamples label inputs := by
    intro label hlabel
    rw [overallSamples, List.map_eq_flatMap]
    refine List.flatMap_congr fun input _ => ?_
    obtain ⟨x, hx, _⟩ := overall_column input hlabel
    rw [hx]
    rfl
  have haverages : calculateAverages (Avg.fields.map fun label => (label, samples label inputs)) =
      Avg.fields.map fun label => (label, npMean (samples label inputs)) := by
    rw [calculateAverages, mapValues, List.map_map]
    rfl
  rw [Avg.main, hloaded, Option.bind_some]
  dsimp only
  rw [hmerged, hget _ (by decide), Option.bind_some, hget _ (by decide), Option.map_some,
    haverages, ← hduration _ (by decide), ← hduration _ (by decide), List.map_map, List.map_map]
  rfl

theorem Avg2.main_logs (hnonneg : ∀ input ∈ inputs, input.NonNegative) :
    Avg2.main (logs.map some) = some
      (Avg2.fieldsToAverage.map fun label => (label, npMean (overallSamples label inputs))) := by
  have hnodup : Avg2.fieldsToAverage.Nodup := by decide
  have hloaded := mapM_logs hlogs fun input hinput log hlog =>
    Avg2.loadFile_log (hnonneg input hinput) hlog
  rw [Avg2.main, hloaded, Option.map_some, Avg2.mergeFields, foldl_merge hnodup,
    calculateAverages, mapValues, List.map_map]
  rfl

omit hlogs in
theorem groupsAs_ne_nil (value : Number → ℚ) (cleanKey : Text → Text)
    (hgroups : groupedLogs inputs ≠ []) : inputs.flatMap (groupsAs value cleanKey) ≠ [] := by
  obtain ⟨input, hinput⟩ := List.exists_mem_of_ne_nil _ hgroups
  obtain ⟨hinput, hcount⟩ := List.mem_filter.mp hinput
  intro hnil
  have hlength := length_groupsAs value cleanKey input
  rw [List.flatMap_eq_nil_iff.mp hnil input hinput, List.length_nil] at hlength
  exact absurd (of_decide_eq_true hcount) (by omega)

theorem Cdf.main_logs (hgroups : groupedLogs inputs ≠ []) :
    Cdf.main (logs.map some) = some (some
      (averagesOf Cdf.averagedKeys (inputs.flatMap (groupsAs Number.printed Cdf.cleanKey)),
        points (samples Avg.persistentRatio inputs))) := by
  have hloaded := mapM_logs hlogs fun input _ log hlog => Cdf.parseFile_log hlog
  have hkeys : ∀ d ∈ inputs.flatMap (groupsAs Number.printed Cdf.cleanKey),
      keys d = Cdf.averagedKeys := by
    intro d hd
    obtain ⟨input, _, hd⟩ := List.mem_flatMap.mp hd
    exact (keys_groupsAs Number.printed input d hd).trans Cdf.averagedKeys_eq.symm
  have hratios : (inputs.flatMap fun input => input.summaries.flatMap fun s =>
      Cdf.ratiosOf Cdf.persistentRatio s.metrics) = samples Avg.persistentRatio inputs :=
    List.flatMap_congr fun input _ => List.flatMap_congr fun s hs =>
      ratiosOf_eq (formats_summaries input s hs)
  have haverages := Cdf.overallAvg_eq (groupsAs_ne_nil _ _ hgroups) hkeys
  rw [Cdf.main, Cdf.computeOverallAveragesAndRatios, hloaded, Option.bind_some, List.flatMap_map]
  change ((Cdf.overallAvg (inputs.flatMap (groupsAs Number.printed Cdf.cleanKey))).map _).map _ = _
  rw [haverages, Option.map_some, Option.map_some, Cdf.withRatios, List.flatMap_map]
  dsimp only
  rw [hratios]
  rfl

end Logs

namespace ProcessConnectionStatsFiles

/-- main averages the overall statistics of all logs, once one of them has a summary. -/
theorem avgOverall_logs {inputs : List StatsInput} {logs : List Text}
    (hlogs : List.Forall₂ (fun input log => writeStatsToFile input = some log) inputs logs)
    (hgroups : groupedLogs inputs ≠ []) :
    ∃ r, main (logs.map some) = some (some r) ∧ r.avgOverall =
      averagesOf (keysOf overallFormats) (inputs.map fun input => printed input.overall) := by
  have hne : inputs ≠ [] := by
    rintro rfl
    exact hgroups rfl
  have hcount : ∀ input ∈ groupedLogs inputs, 0 < input.count :=
    fun input hinput => of_decide_eq_true (List.mem_filter.mp hinput).2
  let averages := (groupedLogs inputs).map fun input =>
    averagesOf (keysOf summaryFormats) (groupsOf input)
  have hsummaries : ((inputs.map fun input =>
      (input.summaries.map fun s => metricsOf s.metrics, metricsOf input.overall)).map
        Prod.fst).filter (fun d => decide (d ≠ [])) =
      (groupedLogs inputs).map fun input => input.summaries.map fun s => metricsOf s.metrics := by
    rw [List.map_map]
    apply filter_groups
    intro input
    change (input.summaries.map _).length = input.count
    rw [List.length_map, StatsInput.summaries, List.length_map, List.length_range]
  have hoverall : ((inputs.map fun input =>
      (input.summaries.map fun s => metricsOf s.metrics, metricsOf input.overall)).map
        Prod.snd).filter (fun d => decide (d ≠ [])) =
      inputs.map fun input => metricsOf input.overall := by
    rw [List.map_map]
    exact filter_map_ne_nil fun input _ => List.cons_ne_nil _ _
  have haverages : ((groupedLogs inputs).map fun input => input.summaries.map fun s =>
      metricsOf s.metrics).mapM averageMetrics = some averages := by
    rw [List.mapM_map]
    exact mapM_eq_map fun input hinput => averageMetrics_groups (hcount input hinput)
  have hfull : averages.filter (fun d => decide (d ≠ [])) = averages :=
    filter_map_ne_nil fun input _ => List.cons_ne_nil _ _
  have hkeys : ∀ d ∈ averages, keys d = keysOf summaryFormats := by
    intro d hd
    obtain ⟨input, _, rfl⟩ := List.mem_map.mp hd
    exact keys_averagesOf _ _
  have hall := averageMetrics_numbers (fun hnil => hgroups (List.map_eq_nil_iff.mp hnil)) hkeys
    keysOf_summaryFormats_nodup
  have hvalid : ¬((groupedLogs inputs).map (fun input => input.summaries.map fun s =>
      metricsOf s.metrics) = [] ∨ (inputs.map fun input => metricsOf input.overall) = []) := by
    rw [List.map_eq_nil_iff, List.map_eq_nil_iff, not_or]
    exact ⟨hgroups, hne⟩
  rw [main, mapM_parseFile hlogs, Option.bind_some]
  dsimp only
  rw [hsummaries, hoverall, if_neg hvalid, haverages, Option.bind_some, hfull, hall,
    Option.bind_some, averageMetrics_overall hne, Option.map_some]
  exact ⟨_, rfl, rfl⟩

end ProcessConnectionStatsFiles

/-! ## Two scripts, one number -/

/-- Where avg and cdf, and where avg2 and process_connection_stats_files, take the same
average, and what avg draws. -/
structure ScriptsAgree (inputs : List StatsInput) (avg : Avg.Results)
    (avg2 : Dict Text (Option ℚ)) (cdf : Dict Text ℚ × List (ℚ × ℚ))
    (stats : ProcessConnectionStatsFiles.Results) : Prop where
  summaries : ∀ label ∈ Avg.fields, ∃ x, get? avg.avgFields label = some (some x) ∧
    get? cdf.1 (Cdf.cleanKey label) = some x
  overall : ∀ label ∈ Avg2.fieldsToAverage, ∃ x, get? avg2 label = some (some x) ∧
    get? stats.avgOverall (ProcessConnectionStatsFiles.cleanKey label) = some x
  persistentDuration : get? avg2 Avg.persistentDuration = some avg.avgPersistentDuration
  nonpersistentDuration : get? avg2 Avg.nonpersistentDuration = some avg.avgNonpersistentDuration
  curves : avg.persistentCurve = cdf.2
  height : ∀ v, height avg.persistentCurve v = fraction (samples Avg.persistentRatio inputs) v

theorem scriptsAgree_logs {inputs : List StatsInput} {logs : List Text}
    (hlogs : List.Forall₂ (fun input log => writeStatsToFile input = some log) inputs logs)
    (hnonneg : ∀ input ∈ inputs, input.NonNegative) (hgroups : groupedLogs inputs ≠ []) :
    ∃ avg avg2 cdf stats, Avg.main (logs.map some) = some avg ∧
      Avg2.main (logs.map some) = some avg2 ∧ Cdf.main (logs.map some) = some (some cdf) ∧
      ProcessConnectionStatsFiles.main (logs.map some) = some (some stats) ∧
      ScriptsAgree inputs avg avg2 cdf stats := by
  have hne : inputs ≠ [] := by
    rintro rfl
    exact hgroups rfl
  obtain ⟨stats, hstats, hoverall⟩ :=
    ProcessConnectionStatsFiles.avgOverall_logs hlogs hgroups
  have hget : ∀ (labels : List Text) (value : Text → Option ℚ), labels.Nodup →
      ∀ label ∈ labels, get? (labels.map fun label => (label, value label)) label =
        some (value label) := by
    intro labels value hnodup label hlabel
    have hnodup' : (labels.map fun label => label).Nodup := by rwa [List.map_id']
    exact get?_map hlabel hnodup'
  have hoverallFields : Avg2.fieldsToAverage.Nodup := by decide
  refine ⟨_, _, _, stats, Avg.main_logs hlogs hnonneg hne, Avg2.main_logs hlogs hnonneg,
    Cdf.main_logs hlogs hgroups, hstats, ?_⟩
  constructor
  · intro label hlabel
    have hkey : Cdf.cleanKey label ∈ Cdf.averagedKeys := by
      have hall : (Avg.fields.all fun label => decide (Cdf.cleanKey label ∈ Cdf.averagedKeys)) =
        true := by decide
      exact of_decide_eq_true (List.all_eq_true.mp hall label hlabel)
    have hsamples := samples_eq hlabel inputs
    refine ⟨mean (samples label inputs), ?_, ?_⟩
    · refine (hget Avg.fields (fun label => npMean (samples label inputs)) (by decide) label
        hlabel).trans ?_
      rw [npMean, if_neg]
      rw [hsamples]
      exact fun hnil => groupsAs_ne_nil _ _ hgroups (List.map_eq_nil_iff.mp hnil)
    · rw [hsamples]
      exact get?_averagesOf (Cdf.averagedKeys_eq ▸ Cdf.summaryKeys_nodup) hkey _
  · intro label hlabel
    have hkey : ProcessConnectionStatsFiles.cleanKey label ∈
        ProcessConnectionStatsFiles.keysOf overallFormats := by
      have hall : (Avg2.fieldsToAverage.all fun label =>
          decide (ProcessConnectionStatsFiles.cleanKey label ∈
            ProcessConnectionStatsFiles.keysOf overallFormats)) = true := by decide
      exact of_decide_eq_true (List.all_eq_true.mp hall label hlabel)
    have hsamples := overallSamples_eq hlabel inputs
    refine ⟨mean (overallSamples label inputs), ?_, ?_⟩
    · refine (hget Avg2.fieldsToAverage _ hoverallFields label hlabel).trans ?_
      rw [npMean, if_neg]
      rw [hsamples]
      exact fun hnil => hne (List.map_eq_nil_iff.mp hnil)
    · rw [hsamples, hoverall]
      have hkeys := ProcessConnectionStatsFiles.keysOf_overallFormats_nodup
      refine (get?_averagesOf hkeys hkey _).trans ?_
      rw [List.map_map]
      rfl
  · exact hget Avg2.fieldsToAverage _ hoverallFields _ (by decide)
  · exact hget Avg2.fieldsToAverage _ hoverallFields _ (by decide)
  · rfl
  · exact height_points _

end ConnectionOrder.Resultexp3
