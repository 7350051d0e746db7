import ConnectionOrder.Resultexp3.Averages
import ConnectionOrder.ServerEpx3.Summaries
import ConnectionOrder.WeightedMeans
import Mathlib.Algebra.Order.BigOperators.Group.List

/-!
# Averages over several logs

compute_overall_averages_and_ratios of cdf takes the mean over the groups of all logs,
main of process_connection_stats_files the mean over the logs of the means over their
groups. A group is of SUMMARY_INTERVAL connections or, at the end of a log, of fewer.
-/

namespace ConnectionOrder.Resultexp3

open PyText PyDict StatsLog ServerEpx3 WeightedMeans
open ProcessConnectionStatsFiles (numbers valueAt averagesOf)

/-- The groups of a log under the keys of a script, with `value` of each number. -/
def groupsAs (value : Number → ℚ) (cleanKey : Text → Text) (input : StatsInput) :
    List (Dict Text ℚ) :=
  input.summaries.map fun s => s.metrics.map fun m => (cleanKey m.label, value m.value)

namespace Cdf

def averagedKeys : List Text :=
  ["non-persistent_count".toList, "persistent_count".toList, "total_when_both_present".toList,
    "only_persistent_count".toList, "only_non-persistent_count".toList,
    "persistent_bytes_read".toList, "non-persistent_bytes_read".toList,
    "persistent_ratio".toList, "non-persistent_ratio".toList, "connection_2_duration".toList,
    "throughput_persistent".toList, "throughput_non-persistent".toList,
    "persistent_packets".toList, "non-persistent_packets".toList]

/-- A key that a group does not have is a KeyError. -/
def averageKey (allData : List Metrics) (key : Text) : Option (Text × ℚ) :=
  (allData.mapM fun d => get? d key).map fun values => (key, mean values)

/-- The inner `none` is the None for want of data. -/
def overallAvg (allData : List Metrics) : Option (Option (Dict Text ℚ)) :=
  if allData = [] then some none
  else (averagedKeys.mapM (averageKey allData)).map some

/-- What is returned: without averages there are no ratios either. -/
def withRatios (parsed : List (List Metrics × List ℚ × List ℚ)) :
    Option (Dict Text ℚ) → Option (Dict Text ℚ) × List ℚ × List ℚ
  | none => (none, [], [])
  | some avg =>
    (some avg, parsed.flatMap fun file => file.2.1, parsed.flatMap fun file => file.2.2)

def computeOverallAveragesAndRatios (files : List (Option Text)) :
    Option (Option (Dict Text ℚ) × List ℚ × List ℚ) :=
  (files.mapM parseFile).bind fun parsed =>
    (overallAvg (parsed.flatMap Prod.fst)).map (withRatios parsed)

/-- overall_avg of the logs. -/
def overallAvgOf (value : Number → ℚ) (inputs : List StatsInput) : Option (Option (Dict Text ℚ)) :=
  overallAvg (inputs.flatMap (groupsAs value cleanKey))

end Cdf

namespace ProcessConnectionStatsFiles

/-- The part of main that averages the summaries of the connections. -/
def averageSummaries (connSummaries : List (List Metrics)) : Option (Option (Dict Text ℚ)) :=
  let allConnectionSummaries := connSummaries.filter (· ≠ [])
  if allConnectionSummaries = [] then some none
  else
    (allConnectionSummaries.mapM averageMetrics).bind fun averages =>
      (averageMetrics ((averages.filter (· ≠ [])).map numbers)).map some

/-- The overall statistics are there, and each of their keys is in all of them. -/
theorem main_avgStatsAll {files : List (Option Text)} {parsed : List (List Metrics × Metrics)}
    {avgOverall : Dict Text ℚ} (hfiles : files.mapM parseFile = some parsed)
    (hvalid : (parsed.map Prod.snd).filter (· ≠ []) ≠ [])
    (havg : averageMetrics ((parsed.map Prod.snd).filter (· ≠ [])) = some avgOverall) :
    (main files).map (Option.map Results.avgStatsAll) = averageSummaries (parsed.map Prod.fst) := by
  rw [main, hfiles, Option.bind_some, averageSummaries]
  dsimp only
  cases Decidable.em ((parsed.map Prod.fst).filter (· ≠ []) = []) with
  | inl hnil =>
    rw [if_pos (.inl hnil), if_pos hnil]
    rfl
  | inr hsome =>
    rw [if_neg (not_or_intro hsome hvalid), if_neg hsome, havg]
    cases (((parsed.map Prod.fst).filter (· ≠ [])).mapM averageMetrics) with
    | none => rfl
    | some averages =>
      rw [Option.bind_some, Option.bind_some]
      cases averageMetrics ((averages.filter (· ≠ [])).map numbers) with
      | none => rfl
      | some avgStatsAll => rfl

/-- avg_stats_all of the logs. -/
def avgStatsAllOf (value : Number → ℚ) (inputs : List StatsInput) :
    Option (Option (Dict Text ℚ)) :=
  averageSummaries (inputs.map fun input => (groupsAs value cleanKey input).map numbers)

end ProcessConnectionStatsFiles

/-! ## The scripts on the texts of the logs -/

section Logs

variable {inputs : List StatsInput} {logs : List Text}
  (hlogs : List.Forall₂ (fun input log => writeStatsToFile input = some log) inputs logs)
include hlogs

theorem Cdf.overallAvg_logs : (Cdf.computeOverallAveragesAndRatios (logs.map some)).map Prod.fst =
    Cdf.overallAvgOf Number.printed inputs := by
  have hparsed : ∃ parsed, (logs.map some).mapM Cdf.parseFile = some parsed ∧
      parsed.flatMap Prod.fst = inputs.flatMap (groupsAs Number.printed Cdf.cleanKey) := by
    induction hlogs with
    | nil => exact ⟨[], rfl, rfl⟩
    | cons hlog _ ih =>
      obtain ⟨parsed, hfiles, hgroups⟩ := ih
      rw [List.map_cons, List.mapM_cons, Cdf.parseFile_log hlog, hfiles]
      refine ⟨_, rfl, ?_⟩
      rw [List.flatMap_cons, hgroups, List.flatMap_cons]
      rfl
  obtain ⟨parsed, hfiles, hgroups⟩ := hparsed
  have hfirst : Prod.fst ∘ Cdf.withRatios parsed = id := by
    funext avg
    cases avg with
    | none => rfl
    | some avg => rfl
  rw [Cdf.computeOverallAveragesAndRatios, hfiles, Option.bind_some, hgroups, Option.map_map,
    hfirst, Option.map_id, id, Cdf.overallAvgOf]

theorem ProcessConnectionStatsFiles.avgStatsAll_logs :
    (ProcessConnectionStatsFiles.main (logs.map some)).map
        (Option.map ProcessConnectionStatsFiles.Results.avgStatsAll) =
      ProcessConnectionStatsFiles.avgStatsAllOf Number.printed inputs := by
  let parsed := inputs.map fun input =>
    (input.summaries.map fun s => ProcessConnectionStatsFiles.metricsOf s.metrics,
      ProcessConnectionStatsFiles.metricsOf input.overall)
  have hsummaries : parsed.map Prod.fst = inputs.map fun input =>
      (groupsAs Number.printed ProcessConnectionStatsFiles.cleanKey input).map numbers := by
    rw [List.map_map]
    refine List.map_congr_left fun input _ => ?_
    rw [groupsAs, List.map_map]
    exact List.map_congr_left fun s _ =>
      (ProcessConnectionStatsFiles.numbers_printed s.metrics).symm
  have hoverall : (parsed.map Prod.snd).filter (fun d => decide (d ≠ [])) =
      inputs.map fun input => ProcessConnectionStatsFiles.metricsOf input.overall := by
    rw [List.map_map]
    exact ProcessConnectionStatsFiles.filter_map_ne_nil fun input _ => List.cons_ne_nil _ _
  rw [ProcessConnectionStatsFiles.avgStatsAllOf, ← hsummaries]
  cases inputs with
  | nil =>
    cases hlogs
    rfl
  | cons input inputs =>
    have hne := List.cons_ne_nil input inputs
    have havg := ProcessConnectionStatsFiles.averageMetrics_overall hne
    rw [← hoverall] at havg
    refine ProcessConnectionStatsFiles.main_avgStatsAll
      (ProcessConnectionStatsFiles.mapM_parseFile hlogs) ?_ havg
    rw [hoverall]
    exact List.cons_ne_nil _ _

end Logs

/-! ## The counts of a group -/

/-- A metric that write_summary_to_file divides by the number of connections. -/
structure Count where
  label : Text
  total : Sums → ℚ

def additive : List Count :=
  [⟨"Avg Non-persistent count".toList, fun s => double s.nonPersistentCount⟩,
    ⟨"Avg Persistent count".toList, fun s => double s.persistentCount⟩,
    ⟨"Avg Total when both present".toList, fun s => double s.totalWhenBothPresent⟩,
    ⟨"Avg Only persistent count".toList, fun s => double s.onlyPersistentCount⟩,
    ⟨"Avg Only non-persistent count".toList, fun s => double s.onlyNonPersistentCount⟩,
    ⟨"Avg Persistent bytes read".toList, fun s => double s.perTotalBytesRead⟩,
    ⟨"Avg Non-persistent bytes read".toList, fun s => double s.nonperTotalBytesRead⟩,
    ⟨"Avg Connection 2 duration".toList, fun s => s.oneconn2Duration⟩,
    ⟨"Avg Persistent packets".toList, fun s => double s.perPackets⟩,
    ⟨"Avg Non-Persistent packets".toList, fun s => double s.nonperPackets⟩]

/-- The metrics without the ratios and the throughputs. -/
theorem additive_sublist (stats : ConnectionStats) (n : ℚ) :
    (additive.map fun count => (count.label, count.total stats.toSums / n)).Sublist
      ((summaryMetrics stats n).map fun m => (m.label, m.value.exact)) := by
  iterate 7 apply List.Sublist.cons_cons
  iterate 2 apply List.Sublist.cons
  apply List.Sublist.cons_cons
  iterate 2 apply List.Sublist.cons
  exact List.Sublist.refl _

theorem additive_metric {count : Count} (h : count ∈ additive) (stats : ConnectionStats) (n : ℚ) :
    ∃ m ∈ summaryMetrics stats n, m.label = count.label ∧
      m.value.exact = count.total stats.toSums / n := by
  have hmem := (additive_sublist stats n).subset (List.mem_map_of_mem h)
  obtain ⟨m, hm, heq⟩ := List.mem_map.mp hmem
  rw [Prod.mk.injEq] at heq
  exact ⟨m, hm, heq⟩

/-- The connections of a group, and what was counted for them. -/
def group (count : Count) (input : StatsInput) (i : Nat) : Sample ℚ :=
  ⟨connections (startConn i) (endConn input.connectionCount i),
    count.total (input.statsArray i).toSums⟩

def groups (count : Count) (input : StatsInput) : List (Sample ℚ) :=
  (List.range input.count).map (group count input)

/-- The average over all connections that are in a group of a log. -/
def averageOf (count : Count) (inputs : List StatsInput) : ℚ :=
  average (inputs.flatMap (groups count))

/-! ## The log of a run -/

/-- What main hands to write_stats_to_file at the end of a run. -/
def statsInput (x : Run) : StatsInput where
  statsArray := x.final.report.saveRemaining.statsArray
  count := x.final.report.saveRemaining.statsCount
  connectionCount := UInt64.ofNat x.final.report.saveRemaining.connectionCount
  totals := x.final.totals
  clocks := x.final.clocks
  rejected := x.final.rejected

theorem connections_eq {i n : Nat} (hi : i < statsCapacity) (hn : n < 2 ^ 64)
    (hfirst : i * summaryInterval ≤ n) :
    connections (StatsLog.startConn i) (StatsLog.endConn (UInt64.ofNat n) i) =
      (Batches.last summaryInterval i n - Batches.first summaryInterval i : Nat) := by
  have hcapacity : statsCapacity = 200 := rfl
  rw [summaryInterval] at hfirst
  have hstart : (StatsLog.startConn i).toNat = i * 50 := by
    rw [StatsLog.startConn, UInt64.toNat_mul, UInt64.toNat_ofNat', UInt64.toNat_ofNat',
      summaryInterval]
    omega
  have hlast : ((UInt64.ofNat i + 1) * UInt64.ofNat summaryInterval).toNat = (i + 1) * 50 := by
    rw [UInt64.toNat_mul, UInt64.toNat_add, UInt64.toNat_ofNat', UInt64.toNat_ofNat',
      summaryInterval, UInt64.toNat_one]
    omega
  have hend : (StatsLog.endConn (UInt64.ofNat n) i).toNat = min ((i + 1) * 50) n := by
    rw [StatsLog.endConn]
    split
    · rename_i hless
      rw [UInt64.lt_iff_toNat_lt, hlast, UInt64.toNat_ofNat_of_lt' hn] at hless
      rw [UInt64.toNat_ofNat_of_lt' hn]
      omega
    · rename_i hless
      rw [UInt64.lt_iff_toNat_lt, hlast, UInt64.toNat_ofNat_of_lt' hn] at hless
      rw [hlast]
      omega
  rw [connections, double, UInt64.toNat_sub_of_le, hstart, hend]
  · rfl
  · rw [UInt64.le_iff_toNat_le, hstart, hend]
    omega

theorem statsCount_le (x : Run) : x.final.report.saveRemaining.statsCount ≤ statsCapacity := by
  have hcount : x.final.report.statsCount = min (x.final.report.connectionCount / summaryInterval)
      statsCapacity := by
    have htotal : x.final.report.connectionCount = _ := (report_sums x).total
    rw [htotal]
    exact (report_sums x).count
  rw [Report.saveRemaining]
  split
  · rename_i hsave
    exact hsave.2.1
  · omega

/-- A group is the connections that its summary is about: its size is their number, and
its total what was counted for them. -/
theorem group_statsInput {x : Run} (hfits : x.final.report.connectionCount < 2 ^ 64)
    (count : Count) {i : Nat} (hi : i < (statsInput x).count) :
    group count (statsInput x) i =
      ⟨(summarized x i).length, count.total (summarized x i).sum⟩ := by
  obtain ⟨hpos, hsum⟩ := slot_saveRemaining x hi
  have hcapacity : i < statsCapacity := hi.trans_le (statsCount_le x)
  have hcount : x.final.report.saveRemaining.connectionCount = (x.observed finished).length :=
    (connectionCount_saveRemaining _).trans (report_sums x).total
  have hlength : (summarized x i).length =
      Batches.last summaryInterval i x.final.report.saveRemaining.connectionCount -
        Batches.first summaryInterval i := by
    rw [hcount]
    exact Batches.length_segment _ i
  have hfirst : i * summaryInterval ≤ x.final.report.saveRemaining.connectionCount := by
    rw [hlength, Batches.last, Batches.first] at hpos
    omega
  rw [group, hlength]
  congr 1
  · rw [connectionCount_saveRemaining] at hfirst
    exact connections_eq hcapacity (by rwa [connectionCount_saveRemaining])
      (by rwa [connectionCount_saveRemaining])
  · exact congrArg count.total hsum

/-! ## The values under the keys of a script -/

section Values

variable {cleanKey : Text → Text}

theorem keys_groupsAs (value : Number → ℚ) (input : StatsInput) :
    ∀ d ∈ groupsAs value cleanKey input, keys d = summaryFormats.map fun f => cleanKey f.label := by
  intro d hd
  obtain ⟨s, hs, rfl⟩ := List.mem_map.mp hd
  rw [← formats_summaries input s hs, keys, List.map_map, List.map_map]
  rfl

variable (hnodup : (summaryFormats.map fun f => cleanKey f.label).Nodup)
include hnodup

theorem values_groupsAs {count : Count} (h : count ∈ additive) (input : StatsInput) :
    ((groupsAs Number.exact cleanKey input).map fun d => valueAt d (cleanKey count.label)) =
      (groups count input).map Sample.mean := by
  rw [groupsAs, StatsInput.summaries, List.map_map, List.map_map, groups, List.map_map]
  refine List.map_congr_left fun i _ => ?_
  let n := connections (startConn i) (endConn input.connectionCount i)
  obtain ⟨m, hm, hlabel, hexact⟩ := additive_metric h (input.statsArray i) n
  have hkeys : ((summaryMetrics (input.statsArray i) n).map fun m => cleanKey m.label).Nodup := by
    rw [← format_summaryMetrics (input.statsArray i) n, List.map_map] at hnodup
    exact hnodup
  have hvalue : get? ((summaryMetrics (input.statsArray i) n).map fun m =>
      (cleanKey m.label, m.value.exact)) (cleanKey m.label) = some m.value.exact :=
    get?_map hm hkeys
  rw [hlabel, hexact] at hvalue
  exact congrArg (fun x => Option.getD x 0) hvalue

end Values

/-! ## What the scripts average -/

theorem get?_averagesOf {ks : List Text} (hnodup : ks.Nodup) {key : Text} (hkey : key ∈ ks)
    (ds : List (Dict Text ℚ)) :
    get? (averagesOf ks ds) key = some (mean (ds.map fun d => valueAt d key)) := by
  have hnodup' : (ks.map fun k => k).Nodup := by rwa [List.map_id']
  exact get?_map hkey hnodup'

/-- The logs with a group; the others are skipped. -/
def groupedLogs (inputs : List StatsInput) : List StatsInput :=
  inputs.filter fun input => 0 < input.count

theorem filter_groups {α : Type} [DecidableEq α] {f : StatsInput → List α}
    (h : ∀ input, (f input).length = input.count) (inputs : List StatsInput) :
    (inputs.map f).filter (fun xs => decide (xs ≠ [])) = (groupedLogs inputs).map f := by
  rw [List.filter_map, groupedLogs]
  refine congrArg (List.map f) (List.filter_congr fun input _ => decide_eq_decide.mpr ?_)
  rw [← h, List.length_pos_iff]

theorem length_groupsAs (value : Number → ℚ) (cleanKey : Text → Text) (input : StatsInput) :
    (groupsAs value cleanKey input).length = input.count := by
  rw [groupsAs, List.length_map, StatsInput.summaries, List.length_map, List.length_range]

theorem Cdf.averagedKeys_eq :
    Cdf.averagedKeys = summaryFormats.map fun f => Cdf.cleanKey f.label := by decide

theorem Cdf.overallAvg_eq {allData : List Cdf.Metrics} (hne : allData ≠ [])
    (hkeys : ∀ d ∈ allData, keys d = Cdf.averagedKeys) :
    Cdf.overallAvg allData = some (some (averagesOf Cdf.averagedKeys allData)) := by
  have haverages : Cdf.averagedKeys.mapM (Cdf.averageKey allData) =
      some (averagesOf Cdf.averagedKeys allData) := by
    refine mapM_eq_map fun key hkey => ?_
    have hvalues : (allData.mapM fun d => get? d key) =
        some (allData.map fun d => valueAt d key) := by
      refine mapM_eq_map fun d hd => ?_
      obtain ⟨x, hx⟩ := get?_of_mem ((hkeys d hd).symm ▸ hkey)
      rw [hx, valueAt, hx, Option.getD_some]
    rw [Cdf.averageKey, hvalues]
    rfl
  rw [Cdf.overallAvg, if_neg hne, haverages, Option.map_some]

namespace ProcessConnectionStatsFiles

theorem averageSummaries_eq {ks : List Text} (hnodup : ks.Nodup) (hks : ks ≠ [])
    {gss : List (List (Dict Text ℚ))} (hgss : gss ≠ []) (hne : ∀ gs ∈ gss, gs ≠ [])
    (hkeys : ∀ gs ∈ gss, ∀ d ∈ gs, keys d = ks) {summaries : List (List Metrics)}
    (hsummaries : summaries.filter (fun s => decide (s ≠ [])) = gss.map fun gs => gs.map numbers) :
    averageSummaries summaries = some (some (averagesOf ks (gss.map (averagesOf ks)))) := by
  have haverages : (gss.map fun gs => gs.map numbers).mapM averageMetrics =
      some (gss.map (averagesOf ks)) := by
    rw [List.mapM_map]
    exact mapM_eq_map fun gs hgs => averageMetrics_numbers (hne gs hgs) (hkeys gs hgs) hnodup
  have hfull : (gss.map (averagesOf ks)).filter (fun d => decide (d ≠ [])) =
      gss.map (averagesOf ks) :=
    filter_map_ne_nil fun gs _ hnil => hks (List.map_eq_nil_iff.mp hnil)
  have hall : averageMetrics ((gss.map (averagesOf ks)).map numbers) =
      some (averagesOf ks (gss.map (averagesOf ks))) := by
    refine averageMetrics_numbers (fun hnil => hgss (List.map_eq_nil_iff.mp hnil)) ?_ hnodup
    intro d hd
    obtain ⟨gs, _, rfl⟩ := List.mem_map.mp hd
    exact keys_averagesOf ks gs
  have hsome : (gss.map fun gs => gs.map numbers) ≠ [] :=
    fun hnil => hgss (List.map_eq_nil_iff.mp hnil)
  rw [averageSummaries, hsummaries, if_neg hsome, haverages, Option.bind_some, hfull, hall,
    Option.map_some]

end ProcessConnectionStatsFiles

/-- Neither script has averages where no log has a group. -/
theorem Cdf.overallAvg_none {inputs : List StatsInput} (hnone : groupedLogs inputs = []) :
    Cdf.overallAvgOf Number.exact inputs = some none := by
  have hnil : inputs.flatMap (groupsAs Number.exact Cdf.cleanKey) = [] := by
    refine List.flatMap_eq_nil_iff.mpr fun input hinput => ?_
    have hzero := List.filter_eq_nil_iff.mp hnone input hinput
    rw [decide_eq_true_iff] at hzero
    rw [← List.length_eq_zero_iff, length_groupsAs]
    omega
  exact if_pos hnil

theorem ProcessConnectionStatsFiles.avgStatsAll_none {inputs : List StatsInput}
    (hnone : groupedLogs inputs = []) :
    ProcessConnectionStatsFiles.avgStatsAllOf Number.exact inputs = some none := by
  have hlength : ∀ input, ((groupsAs Number.exact cleanKey input).map numbers).length =
      input.count := fun input => (List.length_map _).trans (length_groupsAs _ _ input)
  have hnil := filter_groups hlength inputs
  rw [hnone, List.map_nil] at hnil
  exact if_pos hnil

theorem Cdf.overallAvg_exact {inputs : List StatsInput} (hgroups : groupedLogs inputs ≠ []) :
    ∃ overallAvg, Cdf.overallAvgOf Number.exact inputs = some (some overallAvg) ∧
      ∀ count ∈ additive, get? overallAvg (Cdf.cleanKey count.label) =
        some (mean ((inputs.flatMap (groups count)).map Sample.mean)) := by
  have hne : inputs.flatMap (groupsAs Number.exact Cdf.cleanKey) ≠ [] := by
    obtain ⟨input, hinput⟩ := List.exists_mem_of_ne_nil _ hgroups
    obtain ⟨hinput, hcount⟩ := List.mem_filter.mp hinput
    intro hnil
    have hlength := length_groupsAs Number.exact Cdf.cleanKey input
    rw [List.flatMap_eq_nil_iff.mp hnil input hinput, List.length_nil] at hlength
    exact absurd (of_decide_eq_true hcount) (by omega)
  have hkeys : ∀ d ∈ inputs.flatMap (groupsAs Number.exact Cdf.cleanKey),
      keys d = Cdf.averagedKeys := by
    intro d hd
    obtain ⟨input, _, hd⟩ := List.mem_flatMap.mp hd
    exact (keys_groupsAs Number.exact input d hd).trans Cdf.averagedKeys_eq.symm
  refine ⟨_, Cdf.overallAvg_eq hne hkeys, fun count hcount => ?_⟩
  have hkey : Cdf.cleanKey count.label ∈ Cdf.averagedKeys := by
    obtain ⟨m, hm, hlabel, _⟩ := additive_metric hcount ConnectionStats.zero 0
    rw [Cdf.averagedKeys_eq, ← hlabel]
    exact List.mem_map_of_mem (f := fun f : Format => Cdf.cleanKey f.label)
      (List.mem_map_of_mem (f := Metric.format) hm)
  have hnodup : Cdf.averagedKeys.Nodup := Cdf.averagedKeys_eq ▸ Cdf.summaryKeys_nodup
  rw [get?_averagesOf hnodup hkey, List.map_flatMap, List.map_flatMap]
  refine congrArg (fun xs => some (mean xs)) (List.flatMap_congr fun input _ => ?_)
  exact values_groupsAs Cdf.summaryKeys_nodup hcount input

theorem ProcessConnectionStatsFiles.avgStatsAll_exact {inputs : List StatsInput}
    (hgroups : groupedLogs inputs ≠ []) :
    ∃ avgStatsAll,
      ProcessConnectionStatsFiles.avgStatsAllOf Number.exact inputs = some (some avgStatsAll) ∧
      ∀ count ∈ additive,
        get? avgStatsAll (ProcessConnectionStatsFiles.cleanKey count.label) =
          some (WeightedMeans.mean ((groupedLogs inputs).map fun input =>
            WeightedMeans.mean ((groups count input).map Sample.mean))) := by
  let ks := keysOf summaryFormats
  let gss := (groupedLogs inputs).map (groupsAs Number.exact cleanKey)
  have hnodup : ks.Nodup := keysOf_summaryFormats_nodup
  have hgss : gss ≠ [] := fun hnil => hgroups (List.map_eq_nil_iff.mp hnil)
  have hne : ∀ gs ∈ gss, gs ≠ [] := by
    intro gs hgs
    obtain ⟨input, hinput, rfl⟩ := List.mem_map.mp hgs
    rw [← List.length_pos_iff, length_groupsAs]
    exact of_decide_eq_true (List.mem_filter.mp hinput).2
  have hkeys : ∀ gs ∈ gss, ∀ d ∈ gs, keys d = ks := by
    intro gs hgs
    obtain ⟨input, _, rfl⟩ := List.mem_map.mp hgs
    exact keys_groupsAs Number.exact input
  have hsummaries : (inputs.map fun input =>
      (groupsAs Number.exact cleanKey input).map numbers).filter (fun s => decide (s ≠ [])) =
      gss.map fun gs => gs.map numbers := by
    rw [List.map_map]
    exact filter_groups (fun input => (List.length_map _).trans (length_groupsAs _ _ input)) inputs
  refine ⟨_, averageSummaries_eq hnodup (by decide) hgss hne hkeys hsummaries, ?_⟩
  intro count hcount
  have hkey : cleanKey count.label ∈ ks := by
    obtain ⟨m, hm, hlabel, _⟩ := additive_metric hcount ConnectionStats.zero 0
    rw [← hlabel]
    exact List.mem_map_of_mem (f := fun f : Format => cleanKey f.label)
      (List.mem_map_of_mem (f := Metric.format) hm)
  rw [get?_averagesOf hnodup hkey, List.map_map, List.map_map]
  refine congrArg (fun xs => some (mean xs)) (List.map_congr_left fun input _ => ?_)
  exact (valueAt_averagesOf hnodup hkey _).trans
    (congrArg mean (values_groupsAs hnodup hcount input))

theorem exists_of_mapM {α β : Type} {f : α → Option β} {xs : List α} {ys : List β}
    (h : xs.mapM f = some ys) : ∀ x ∈ xs, ∃ y, f x = some y := by
  induction xs generalizing ys with
  | nil => exact fun _ hx => absurd hx List.not_mem_nil
  | cons x xs ih =>
    rw [List.mapM_cons] at h
    obtain ⟨y, hy, hrest⟩ := Option.bind_eq_some_iff.mp h
    obtain ⟨ys, hys, _⟩ := Option.bind_eq_some_iff.mp hrest
    exact List.forall_mem_cons.mpr ⟨⟨y, hy⟩, ih hys⟩

theorem connections_ne_zero {input : StatsInput} {log : Text}
    (hlog : writeStatsToFile input = some log) {i : Nat} (hi : i < input.count) :
    connections (startConn i) (endConn input.connectionCount i) ≠ 0 := by
  obtain ⟨texts, htexts, _⟩ := Option.map_eq_some_iff.mp hlog
  obtain ⟨text, htext⟩ := exists_of_mapM htexts i (List.mem_range.mpr hi)
  intro hzero
  rw [writeSummaryToFile, if_pos hzero] at htext
  cases htext

/-! ## The averages of the two scripts -/

def fullGroup : ℚ := summaryInterval

/-- The logs with a group, each as the sample of its groups' means. -/
def logSamples (count : Count) (inputs : List StatsInput) : List (Sample ℚ) :=
  (groupedLogs inputs).map fun input => ofList ((groups count input).map Sample.mean)

/-- What cdf has for a count, in `x`, and process_connection_stats_files, in `y`. -/
structure Averaged (count : Count) (inputs : List StatsInput) (x y : Option ℚ) : Prop where
  files : y = some (mean ((groupedLogs inputs).map fun input =>
    mean ((groups count input).map Sample.mean)))
  overall_iff : x = some (averageOf count inputs) ↔
    shortfall fullGroup (averageOf count inputs) (inputs.flatMap (groups count)) = 0
  files_iff : y = some (averageOf count inputs) ↔
    ((groupedLogs inputs).map fun input =>
      (shortfall fullGroup (averageOf count inputs) (groups count input) +
        surplus (averageOf count inputs) (groups count input)) / input.count).sum = 0
  agree_iff : ∀ full : ℚ, full ≠ 0 →
    (x = y ↔ shortfall full (average (logSamples count inputs)) (logSamples count inputs) = 0)

theorem length_groups (count : Count) (input : StatsInput) :
    (groups count input).length = input.count := by
  rw [groups, List.length_map, List.length_range]

theorem groups_pos {input : StatsInput} (h : input ∈ groupedLogs inputs) (count : Count) :
    groups count input ≠ [] := by
  rw [← List.length_pos_iff, length_groups]
  exact of_decide_eq_true (List.mem_filter.mp h).2

/-- A log without a group adds none. -/
theorem flatMap_groupedLogs (count : Count) (inputs : List StatsInput) :
    (groupedLogs inputs).flatMap (groups count) = inputs.flatMap (groups count) := by
  induction inputs with
  | nil => rfl
  | cons input inputs ih =>
    rw [groupedLogs, List.filter_cons, ← groupedLogs, List.flatMap_cons]
    cases Decidable.em (0 < input.count) with
    | inl hpos => rw [if_pos (decide_eq_true hpos), List.flatMap_cons, ih]
    | inr hzero =>
      have hnil : groups count input = [] := by
        rw [← List.length_eq_zero_iff, length_groups]
        omega
      rw [if_neg (Bool.eq_false_iff.mp (decide_eq_false hzero)), hnil, ih, List.nil_append]

section Written

variable {inputs : List StatsInput}
  (hsizes : ∀ input ∈ inputs, ∀ i < input.count,
    0 < connections (startConn i) (endConn input.connectionCount i))
  (hgroups : groupedLogs inputs ≠ [])
include hsizes

theorem size_pos (count : Count) : ∀ g ∈ inputs.flatMap (groups count), 0 < g.size := by
  intro g hg
  obtain ⟨input, hinput, hg⟩ := List.mem_flatMap.mp hg
  obtain ⟨i, hi, rfl⟩ := List.mem_map.mp hg
  exact hsizes input hinput i (List.mem_range.mp hi)

include hgroups

theorem overall_iff (count : Count) {full : ℚ} (hfull : full ≠ 0) :
    mean ((inputs.flatMap (groups count)).map Sample.mean) = averageOf count inputs ↔
      shortfall full (averageOf count inputs) (inputs.flatMap (groups count)) = 0 := by
  have hpos := size_pos hsizes count
  have hne : inputs.flatMap (groups count) ≠ [] := by
    obtain ⟨input, hinput⟩ := List.exists_mem_of_ne_nil _ hgroups
    intro hnil
    exact groups_pos hinput count
      (List.flatMap_eq_nil_iff.mp hnil input (List.mem_filter.mp hinput).1)
  have hsize : 0 < size (inputs.flatMap (groups count)) := by
    refine List.sum_pos _ ?_ (fun hnil => hne (List.map_eq_nil_iff.mp hnil))
    intro n hn
    obtain ⟨g, hg, rfl⟩ := List.mem_map.mp hn
    exact hpos g hg
  exact mean_means_iff hne (fun g hg => ne_of_gt (hpos g hg)) (ne_of_gt hsize) hfull

theorem files_iff (count : Count) (a : ℚ) :
    mean ((groupedLogs inputs).map fun input => mean ((groups count input).map Sample.mean)) = a ↔
      ((groupedLogs inputs).map fun input =>
        (shortfall fullGroup a (groups count input) + surplus a (groups count input)) /
          input.count).sum = 0 := by
  let gss := (groupedLogs inputs).map (groups count)
  have hgss : gss ≠ [] := fun hnil => hgroups (List.map_eq_nil_iff.mp hnil)
  have hne : ∀ gs ∈ gss, gs ≠ [] := by
    intro gs hgs
    obtain ⟨input, hinput, rfl⟩ := List.mem_map.mp hgs
    exact groups_pos hinput count
  have hsize : ∀ gs ∈ gss, ∀ g ∈ gs, g.size ≠ 0 := by
    intro gs hgs g hg
    obtain ⟨input, hinput, rfl⟩ := List.mem_map.mp hgs
    have hmem := List.mem_flatMap.mpr ⟨input, (List.mem_filter.mp hinput).1, hg⟩
    exact ne_of_gt (size_pos hsizes count g hmem)
  have hiff := mean_mean_means_iff hgss hne hsize (show fullGroup ≠ 0 by decide) a
  rw [List.map_map, List.map_map] at hiff
  simp only [Function.comp_def, length_groups] at hiff
  exact hiff

omit hsizes in
theorem agree_iff (count : Count) {full : ℚ} (hfull : full ≠ 0) :
    mean ((inputs.flatMap (groups count)).map Sample.mean) =
        mean ((groupedLogs inputs).map fun input =>
          mean ((groups count input).map Sample.mean)) ↔
      shortfall full (average (logSamples count inputs)) (logSamples count inputs) = 0 := by
  let xss := (groupedLogs inputs).map fun input => (groups count input).map Sample.mean
  have hxss : xss ≠ [] := fun hnil => hgroups (List.map_eq_nil_iff.mp hnil)
  have hne : ∀ xs ∈ xss, xs ≠ [] := by
    intro xs hxs
    obtain ⟨input, hinput, rfl⟩ := List.mem_map.mp hxs
    exact fun hnil => groups_pos hinput count (List.map_eq_nil_iff.mp hnil)
  have hflatten : xss.flatten = (inputs.flatMap (groups count)).map Sample.mean := by
    rw [← flatMap_groupedLogs, List.map_flatMap, List.flatMap_def]
  have hiff := mean_flatten_iff hxss hne hfull
  rw [hflatten, List.map_map, List.map_map] at hiff
  exact eq_comm.trans hiff

end Written

theorem sizes_pos {inputs : List StatsInput} {logs : List Text}
    (hlogs : List.Forall₂ (fun input log => writeStatsToFile input = some log) inputs logs) :
    ∀ input ∈ inputs, ∀ i < input.count,
      0 < connections (startConn i) (endConn input.connectionCount i) := by
  induction hlogs with
  | nil => exact fun _ hinput => absurd hinput List.not_mem_nil
  | cons hlog _ ih =>
    refine List.forall_mem_cons.mpr ⟨fun i hi => ?_, ih⟩
    exact lt_of_le_of_ne (Nat.cast_nonneg _) (connections_ne_zero hlog hi).symm

end ConnectionOrder.Resultexp3
