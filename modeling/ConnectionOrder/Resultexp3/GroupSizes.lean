import ConnectionOrder.Resultexp3.GroupMeans

/-!
# Averages over logs of given sizes

A log has a number of groups and a number of connections. For which of these numbers
the scripts average over connections, whatever was counted: the groups have to be of one
size, and the logs to have the same number of groups.
-/

namespace ConnectionOrder.Resultexp3

open PyText PyDict StatsLog ServerEpx3 WeightedMeans

/-- The number of groups and the number of connections fix the size of every group. -/
def dimensions (input : StatsInput) : Nat × UInt64 := (input.count, input.connectionCount)

/-- Logs of the same sizes, with anything counted in them. -/
def SameSizes (inputs others : List StatsInput) : Prop :=
  inputs.map dimensions = others.map dimensions

/-- All groups of all logs are of the same number of connections. -/
def OneSize (inputs : List StatsInput) : Prop :=
  ∃ n : ℚ, ∀ input ∈ inputs, ∀ i < input.count,
    connections (startConn i) (endConn input.connectionCount i) = n

/-- All logs that have a group have the same number of groups. -/
def SameNumber (inputs : List StatsInput) : Prop :=
  ∃ k : Nat, ∀ input ∈ inputs, 0 < input.count → input.count = k

/-- overall_avg of cdf has the averages over the connections. -/
def CdfAverages (inputs : List StatsInput) : Prop :=
  ∃ overallAvg, Cdf.overallAvgOf Number.exact inputs = some (some overallAvg) ∧
    ∀ count ∈ additive,
      get? overallAvg (Cdf.cleanKey count.label) = some (averageOf count inputs)

/-- avg_stats_all of process_connection_stats_files has the averages over the connections. -/
def FilesAverages (inputs : List StatsInput) : Prop :=
  ∃ avgStatsAll, ProcessConnectionStatsFiles.avgStatsAllOf Number.exact inputs =
      some (some avgStatsAll) ∧
    ∀ count ∈ additive, get? avgStatsAll (ProcessConnectionStatsFiles.cleanKey count.label) =
      some (averageOf count inputs)

def SameAverages (inputs : List StatsInput) : Prop :=
  ∃ overallAvg avgStatsAll, Cdf.overallAvgOf Number.exact inputs = some (some overallAvg) ∧
    ProcessConnectionStatsFiles.avgStatsAllOf Number.exact inputs = some (some avgStatsAll) ∧
    ∀ count ∈ additive, get? overallAvg (Cdf.cleanKey count.label) =
      get? avgStatsAll (ProcessConnectionStatsFiles.cleanKey count.label)

/-- The sizes of all groups of all logs. -/
def groupSizes (inputs : List StatsInput) : List ℚ :=
  (inputs.map dimensions).flatMap fun d =>
    (List.range d.1).map fun i => connections (startConn i) (endConn d.2 i)

theorem map_size_groups (count : Count) (inputs : List StatsInput) :
    (inputs.flatMap (groups count)).map Sample.size = groupSizes inputs := by
  rw [groupSizes, List.flatMap_map, List.map_flatMap]
  refine List.flatMap_congr fun input _ => ?_
  rw [groups, List.map_map]
  rfl

/-! ## What follows from the sizes -/

section Sizes

variable {inputs others : List StatsInput} (h : SameSizes inputs others)
include h

theorem SameSizes.forall_mem {P : Nat × UInt64 → Prop}
    (hall : ∀ input ∈ inputs, P (dimensions input)) : ∀ other ∈ others, P (dimensions other) := by
  rw [← List.forall_mem_map] at hall ⊢
  rwa [← h]

theorem SameSizes.oneSize (hone : OneSize inputs) : OneSize others := by
  obtain ⟨n, hn⟩ := hone
  exact ⟨n, h.forall_mem (P := fun d => ∀ i < d.1, connections (startConn i) (endConn d.2 i) = n)
    hn⟩

theorem SameSizes.sameNumber (hnumber : SameNumber inputs) : SameNumber others := by
  obtain ⟨k, hk⟩ := hnumber
  exact ⟨k, h.forall_mem (P := fun d => 0 < d.1 → d.1 = k) hk⟩

theorem SameSizes.sizes
    (hsizes : ∀ input ∈ inputs, ∀ i < input.count,
      0 < connections (startConn i) (endConn input.connectionCount i)) :
    ∀ other ∈ others, ∀ i < other.count,
      0 < connections (startConn i) (endConn other.connectionCount i) :=
  h.forall_mem (P := fun d => ∀ i < d.1, 0 < connections (startConn i) (endConn d.2 i)) hsizes

theorem SameSizes.grouped (hgroups : groupedLogs inputs ≠ []) : groupedLogs others ≠ [] := by
  intro hnone
  refine hgroups (List.filter_eq_nil_iff.mpr ?_)
  exact SameSizes.forall_mem h.symm (P := fun d => ¬decide (0 < d.1) = true)
    (List.filter_eq_nil_iff.mp hnone)

end Sizes

section Balanced

variable {inputs : List StatsInput}
  (hsizes : ∀ input ∈ inputs, ∀ i < input.count,
    0 < connections (startConn i) (endConn input.connectionCount i))
  (hgroups : groupedLogs inputs ≠ [])
include hgroups

theorem exists_grouped : ∃ input ∈ inputs, 0 < input.count := by
  obtain ⟨input, hinput⟩ := List.exists_mem_of_ne_nil _ hgroups
  obtain ⟨hinput, hcount⟩ := List.mem_filter.mp hinput
  exact ⟨input, hinput, of_decide_eq_true hcount⟩

include hsizes in
/-- Groups of one size all count the same. -/
theorem mean_of_oneSize (hone : OneSize inputs) (count : Count) :
    mean ((inputs.flatMap (groups count)).map Sample.mean) = averageOf count inputs := by
  obtain ⟨n, hn⟩ := hone
  obtain ⟨input, hinput, hcount⟩ := exists_grouped hgroups
  have hpos : n ≠ 0 := by
    rw [← hn input hinput 0 hcount]
    exact ne_of_gt (hsizes input hinput 0 hcount)
  rw [overall_iff hsizes hgroups count hpos, shortfall]
  apply List.sum_eq_zero
  intro x hx
  obtain ⟨g, hg, rfl⟩ := List.mem_map.mp hx
  obtain ⟨input, hinput, hg⟩ := List.mem_flatMap.mp hg
  obtain ⟨i, hi, rfl⟩ := List.mem_map.mp hg
  rw [group, hn input hinput i (List.mem_range.mp hi), sub_self, zero_mul]

/-- Logs with the same number of groups all count the same. -/
theorem mean_of_sameNumber (hnumber : SameNumber inputs) (count : Count) :
    mean ((inputs.flatMap (groups count)).map Sample.mean) =
      mean ((groupedLogs inputs).map fun input => mean ((groups count input).map Sample.mean)) := by
  obtain ⟨k, hk⟩ := hnumber
  obtain ⟨input, hinput, hcount⟩ := exists_grouped hgroups
  have hpos : (k : ℚ) ≠ 0 := by
    rw [← hk input hinput hcount]
    exact Nat.cast_ne_zero.mpr hcount.ne'
  rw [agree_iff hgroups count hpos, shortfall]
  apply List.sum_eq_zero
  intro x hx
  obtain ⟨g, hg, rfl⟩ := List.mem_map.mp hx
  obtain ⟨input, hinput, rfl⟩ := List.mem_map.mp hg
  obtain ⟨hinput, hcount⟩ := List.mem_filter.mp hinput
  rw [ofList, List.length_map, length_groups, hk input hinput (of_decide_eq_true hcount), sub_self,
    zero_mul]

end Balanced

/-! ## A count that shows the weight of one group -/

/-- A log in which nothing is counted. -/
def blank (input : StatsInput) : StatsInput :=
  { input with statsArray := fun _ => ConnectionStats.zero }

/-- A log in which each connection of group i alone is counted once. -/
def marked (i : Nat) (input : StatsInput) : StatsInput :=
  { input with
    statsArray := Function.update (fun _ => ConnectionStats.zero) i
      { ConnectionStats.zero with
        persistentCount := endConn input.connectionCount i - StatsLog.startConn i } }

def persistentCount : Count := ⟨"Avg Persistent count".toList, fun s => double s.persistentCount⟩

theorem persistentCount_additive : persistentCount ∈ additive :=
  List.mem_cons_of_mem _ List.mem_cons_self

theorem total_blank {input : StatsInput} {g : Sample ℚ}
    (hg : g ∈ groups persistentCount (blank input)) : g.total = 0 := by
  obtain ⟨i, _, rfl⟩ := List.mem_map.mp hg
  rfl

/-- The marked group is counted as often as it has connections. -/
theorem group_marked (i j : Nat) (input : StatsInput) :
    group persistentCount (marked i input) j =
      ⟨connections (startConn j) (endConn input.connectionCount j),
        if j = i then connections (startConn i) (endConn input.connectionCount i) else 0⟩ := by
  rw [group, marked]
  dsimp only
  rw [Function.update_apply]
  split <;> rfl

section Marked

variable {before after : List StatsInput} {input : StatsInput} {i : Nat} (hi : i < input.count)

def markedLogs (before after : List StatsInput) (input : StatsInput) (i : Nat) :
    List StatsInput :=
  before.map blank ++ marked i input :: after.map blank

theorem sameSizes_markedLogs :
    SameSizes (before ++ input :: after) (markedLogs before after input i) := by
  rw [SameSizes, markedLogs, List.map_append, List.map_append, List.map_cons, List.map_cons,
    List.map_map, List.map_map]
  rfl

theorem sum_markedLogs {f : StatsInput → ℚ} (hblank : ∀ input, f (blank input) = 0) :
    ((markedLogs before after input i).map f).sum = f (marked i input) := by
  have hzero : ∀ inputs : List StatsInput, ((inputs.map blank).map f).sum = 0 := by
    intro inputs
    rw [List.map_map]
    exact List.sum_eq_zero fun x hx => by
      obtain ⟨other, _, rfl⟩ := List.mem_map.mp hx
      exact hblank other
  rw [markedLogs, List.map_append, List.map_cons, List.sum_append, List.sum_cons, hzero, hzero,
    add_zero, zero_add]

include hi

theorem sum_groups_marked {f : Sample ℚ → ℚ}
    (hother : ∀ g : Sample ℚ, g.total = 0 → f g = 0) :
    ((groups persistentCount (marked i input)).map f).sum =
      f (group persistentCount (marked i input) i) := by
  rw [groups, List.map_map, List.sum_map_eq_nsmul_single i]
  · have hcount : (List.range (marked i input).count).count i = 1 :=
      List.count_eq_one_of_mem List.nodup_range (List.mem_range.mpr hi)
    rw [hcount, one_nsmul]
    rfl
  · intro j hne _
    apply hother
    rw [group_marked, if_neg hne]

theorem sum_flatMap_marked {f : Sample ℚ → ℚ} (hother : ∀ g : Sample ℚ, g.total = 0 → f g = 0) :
    (((markedLogs before after input i).flatMap (groups persistentCount)).map f).sum =
      f (group persistentCount (marked i input) i) := by
  rw [List.map_flatMap, List.flatMap_def, List.sum_flatten, List.map_map,
    ← sum_groups_marked hi hother]
  refine sum_markedLogs fun other => ?_
  refine List.sum_eq_zero fun x hx => ?_
  obtain ⟨g, hg, rfl⟩ := List.mem_map.mp hx
  exact hother g (total_blank hg)

omit hi in
theorem groupSizes_markedLogs :
    groupSizes (markedLogs before after input i) = groupSizes (before ++ input :: after) := by
  have hsame : SameSizes (before ++ input :: after) (markedLogs before after input i) :=
    sameSizes_markedLogs
  rw [groupSizes, ← hsame, groupSizes]

theorem groupedLogs_markedLogs : groupedLogs (markedLogs before after input i) =
    markedLogs (groupedLogs before) (groupedLogs after) input i := by
  have hblank : ∀ inputs, groupedLogs (inputs.map blank) = (groupedLogs inputs).map blank :=
    fun inputs => List.filter_map
  have hmarked : groupedLogs (marked i input :: after.map blank) =
      marked i input :: groupedLogs (after.map blank) :=
    List.filter_cons_of_pos (decide_eq_true (Nat.zero_lt_of_lt hi))
  rw [markedLogs, groupedLogs, List.filter_append, ← groupedLogs, ← groupedLogs, hmarked, hblank,
    hblank, markedLogs]

theorem length_groupedLogs_markedLogs :
    (groupedLogs (markedLogs before after input i)).length =
      (groupedLogs (before ++ input :: after)).length := by
  have hinput : groupedLogs (input :: after) = input :: groupedLogs after :=
    List.filter_cons_of_pos (decide_eq_true (Nat.zero_lt_of_lt hi))
  have hsplit : groupedLogs (before ++ input :: after) =
      groupedLogs before ++ input :: groupedLogs after := by
    rw [groupedLogs, List.filter_append, ← groupedLogs, ← groupedLogs, hinput]
  rw [groupedLogs_markedLogs hi, hsplit, markedLogs, List.length_append, List.length_append,
    List.length_cons, List.length_cons, List.length_map, List.length_map]

/-- Among the connections the marked group has the weight of its size. -/
theorem average_marked : averageOf persistentCount (markedLogs before after input i) =
    connections (startConn i) (endConn input.connectionCount i) /
      (groupSizes (before ++ input :: after)).sum := by
  rw [averageOf, average, total, sum_flatMap_marked hi fun g hg => hg, group_marked, if_pos rfl,
    WeightedMeans.size, map_size_groups, groupSizes_markedLogs]

variable (hsize : 0 < connections (startConn i) (endConn input.connectionCount i))
include hsize

/-- cdf gives it the weight of one group of all. -/
theorem mean_marked :
    mean (((markedLogs before after input i).flatMap (groups persistentCount)).map Sample.mean) =
      1 / (groupSizes (before ++ input :: after)).length := by
  rw [mean, sum_flatMap_marked hi fun _ => Sample.mean_eq_zero, group_marked, if_pos rfl,
    Sample.mean, div_self hsize.ne', List.length_map, ← groupSizes_markedLogs (i := i),
    ← map_size_groups persistentCount, List.length_map]

/-- The other script gives it the weight of one group of its log, and the log that of one
log of all. -/
theorem files_marked :
    mean ((groupedLogs (markedLogs before after input i)).map fun log =>
        mean ((groups persistentCount log).map Sample.mean)) =
      1 / input.count / (groupedLogs (before ++ input :: after)).length := by
  have hblank : ∀ log, mean ((groups persistentCount (blank log)).map Sample.mean) = 0 := by
    intro log
    rw [mean, List.sum_eq_zero, zero_div]
    intro x hx
    obtain ⟨g, hg, rfl⟩ := List.mem_map.mp hx
    exact Sample.mean_eq_zero (total_blank hg)
  rw [mean, List.length_map, length_groupedLogs_markedLogs hi, groupedLogs_markedLogs hi,
    sum_markedLogs hblank, mean, sum_groups_marked hi fun _ => Sample.mean_eq_zero, group_marked,
    if_pos rfl, Sample.mean, div_self hsize.ne', List.length_map, length_groups]
  rfl

end Marked

/-! ## The sizes that make the averages right -/

/-- What a script has under its keys is right exactly where the values are. -/
theorem exists_averages_iff {result : Option (Option (Dict Text ℚ))} {averages : Dict Text ℚ}
    {key : Count → Text} {value right : Count → ℚ} (hresult : result = some (some averages))
    (hvalue : ∀ count ∈ additive, get? averages (key count) = some (value count)) :
    (∃ found, result = some (some found) ∧
        ∀ count ∈ additive, get? found (key count) = some (right count)) ↔
      ∀ count ∈ additive, value count = right count := by
  constructor
  · rintro ⟨found, hfound, hright⟩ count hcount
    rw [hresult, Option.some_inj, Option.some_inj] at hfound
    have heq := hvalue count hcount
    rw [hfound, hright count hcount, Option.some_inj] at heq
    exact heq.symm
  · intro hright
    exact ⟨averages, hresult, fun count hcount => by
      rw [hvalue count hcount, hright count hcount]⟩

section Iff

variable {inputs : List StatsInput} (hgroups : groupedLogs inputs ≠ [])
include hgroups

theorem cdfAverages_iff : CdfAverages inputs ↔ ∀ count ∈ additive,
    mean ((inputs.flatMap (groups count)).map Sample.mean) = averageOf count inputs := by
  obtain ⟨overallAvg, hoverall, hx⟩ := Cdf.overallAvg_exact hgroups
  exact exists_averages_iff hoverall hx

theorem filesAverages_iff : FilesAverages inputs ↔ ∀ count ∈ additive,
    mean ((groupedLogs inputs).map fun input => mean ((groups count input).map Sample.mean)) =
      averageOf count inputs := by
  obtain ⟨avgStatsAll, hfiles, hy⟩ := ProcessConnectionStatsFiles.avgStatsAll_exact hgroups
  exact exists_averages_iff hfiles hy

theorem sameAverages_iff : SameAverages inputs ↔ ∀ count ∈ additive,
    mean ((inputs.flatMap (groups count)).map Sample.mean) =
      mean ((groupedLogs inputs).map fun input =>
        mean ((groups count input).map Sample.mean)) := by
  obtain ⟨overallAvg, hoverall, hx⟩ := Cdf.overallAvg_exact hgroups
  obtain ⟨avgStatsAll, hfiles, hy⟩ := ProcessConnectionStatsFiles.avgStatsAll_exact hgroups
  constructor
  · rintro ⟨overallAvg', avgStatsAll', hoverall', hfiles', hsame⟩ count hcount
    rw [hoverall, Option.some_inj, Option.some_inj] at hoverall'
    rw [hfiles, Option.some_inj, Option.some_inj] at hfiles'
    have heq := hsame count hcount
    rw [← hoverall', ← hfiles', hx count hcount, hy count hcount, Option.some_inj] at heq
    exact heq
  · intro hsame
    exact ⟨overallAvg, avgStatsAll, hoverall, hfiles, fun count hcount => by
      rw [hx count hcount, hy count hcount, hsame count hcount]⟩

variable (hsizes : ∀ input ∈ inputs, ∀ i < input.count,
  0 < connections (startConn i) (endConn input.connectionCount i))
include hsizes

theorem oneSize_of_cdfAverages (hall : ∀ others, SameSizes inputs others → CdfAverages others) :
    OneSize inputs := by
  refine ⟨(groupSizes inputs).sum / (groupSizes inputs).length, fun input hinput i hi => ?_⟩
  obtain ⟨before, after, rfl⟩ := List.append_of_mem hinput
  have hsize := hsizes input hinput i hi
  have hsame : SameSizes (before ++ input :: after) (markedLogs before after input i) :=
    sameSizes_markedLogs
  have hright := (cdfAverages_iff (hsame.grouped hgroups)).mp (hall _ hsame) persistentCount
    persistentCount_additive
  rw [mean_marked hi hsize, average_marked hi] at hright
  have hmem : connections (startConn i) (endConn input.connectionCount i) ∈
      groupSizes (before ++ input :: after) :=
    List.mem_flatMap.mpr ⟨dimensions input, List.mem_map_of_mem hinput,
      List.mem_map_of_mem (List.mem_range.mpr hi)⟩
  have hlength := length_ne_zero (K := ℚ) (List.ne_nil_of_mem hmem)
  have hsum : (groupSizes (before ++ input :: after)).sum ≠ 0 := by
    intro hzero
    rw [hzero, div_zero] at hright
    exact hlength (by simpa using hright)
  field_simp at hright ⊢
  linarith

theorem sameNumber_of_sameAverages
    (hall : ∀ others, SameSizes inputs others → SameAverages others) : SameNumber inputs := by
  have hcounts : ∀ input ∈ inputs, 0 < input.count →
      (input.count : ℚ) = (groupSizes inputs).length / (groupedLogs inputs).length := by
    intro input hinput hcount
    obtain ⟨before, after, rfl⟩ := List.append_of_mem hinput
    have hsize := hsizes input hinput 0 hcount
    have hsame : SameSizes (before ++ input :: after) (markedLogs before after input 0) :=
      sameSizes_markedLogs
    have hright := (sameAverages_iff (hsame.grouped hgroups)).mp (hall _ hsame) persistentCount
      persistentCount_additive
    rw [mean_marked hcount hsize, files_marked hcount hsize] at hright
    have hlogs := length_ne_zero (K := ℚ) hgroups
    have hpos : (input.count : ℚ) ≠ 0 := Nat.cast_ne_zero.mpr hcount.ne'
    have hlength : ((groupSizes (before ++ input :: after)).length : ℚ) ≠ 0 := by
      intro hzero
      rw [hzero, div_zero] at hright
      exact div_ne_zero (div_ne_zero one_ne_zero hpos) hlogs hright.symm
    field_simp at hright ⊢
    linarith
  obtain ⟨one, hone, hpos⟩ := exists_grouped hgroups
  refine ⟨one.count, fun input hinput hcount => ?_⟩
  exact Nat.cast_injective (R := ℚ)
    ((hcounts input hinput hcount).trans (hcounts one hone hpos).symm)

theorem cdfAverages_forall_iff :
    (∀ others, SameSizes inputs others → CdfAverages others) ↔ OneSize inputs := by
  refine ⟨oneSize_of_cdfAverages hgroups hsizes, fun hone others hsame => ?_⟩
  rw [cdfAverages_iff (hsame.grouped hgroups)]
  exact fun count _ => mean_of_oneSize (hsame.sizes hsizes) (hsame.grouped hgroups)
    (hsame.oneSize hone) count

theorem sameAverages_forall_iff :
    (∀ others, SameSizes inputs others → SameAverages others) ↔ SameNumber inputs := by
  refine ⟨sameNumber_of_sameAverages hgroups hsizes, fun hnumber others hsame => ?_⟩
  rw [sameAverages_iff (hsame.grouped hgroups)]
  exact fun count _ => mean_of_sameNumber (hsame.grouped hgroups) (hsame.sameNumber hnumber) count

theorem averages_forall_iff :
    (∀ others, SameSizes inputs others → CdfAverages others ∧ FilesAverages others) ↔
      OneSize inputs ∧ SameNumber inputs := by
  rw [← cdfAverages_forall_iff hgroups hsizes, ← sameAverages_forall_iff hgroups hsizes,
    ← forall_and]
  refine forall_congr' fun others => ?_
  rw [← forall_and]
  refine forall_congr' fun hsame => and_congr_right fun hcdf => ?_
  have hgrouped := hsame.grouped hgroups
  have hmean := (cdfAverages_iff hgrouped).mp hcdf
  rw [filesAverages_iff hgrouped, sameAverages_iff hgrouped]
  refine forall₂_congr fun count hcount => ?_
  rw [hmean count hcount]
  exact eq_comm

end Iff

/-- On the texts of logs the scripts take averages of the printed values. With the values
before they are rounded, the averages are over connections, whatever was counted, exactly
where all groups are of one size and all logs of the same number of groups; what one list of
logs is averaged to depends on how its short groups and its logs balance. -/
theorem averages_over_logs {inputs : List StatsInput} {logs : List Text}
    (hlogs : List.Forall₂ (fun input log => writeStatsToFile input = some log) inputs logs) :
    ((Cdf.computeOverallAveragesAndRatios (logs.map some)).map Prod.fst =
        Cdf.overallAvgOf Number.printed inputs ∧
      (ProcessConnectionStatsFiles.main (logs.map some)).map
          (Option.map ProcessConnectionStatsFiles.Results.avgStatsAll) =
        ProcessConnectionStatsFiles.avgStatsAllOf Number.printed inputs) ∧
    (groupedLogs inputs = [] → Cdf.overallAvgOf Number.exact inputs = some none ∧
      ProcessConnectionStatsFiles.avgStatsAllOf Number.exact inputs = some none) ∧
    (groupedLogs inputs ≠ [] →
      ((∀ others, SameSizes inputs others → CdfAverages others) ↔ OneSize inputs) ∧
      ((∀ others, SameSizes inputs others → CdfAverages others ∧ FilesAverages others) ↔
        OneSize inputs ∧ SameNumber inputs) ∧
      ((∀ others, SameSizes inputs others → SameAverages others) ↔ SameNumber inputs) ∧
      ∃ overallAvg avgStatsAll,
        Cdf.overallAvgOf Number.exact inputs = some (some overallAvg) ∧
        ProcessConnectionStatsFiles.avgStatsAllOf Number.exact inputs = some (some avgStatsAll) ∧
        ∀ count ∈ additive, Averaged count inputs
          (get? overallAvg (Cdf.cleanKey count.label))
          (get? avgStatsAll (ProcessConnectionStatsFiles.cleanKey count.label))) := by
  have hsizes := sizes_pos hlogs
  refine ⟨⟨Cdf.overallAvg_logs hlogs, ProcessConnectionStatsFiles.avgStatsAll_logs hlogs⟩,
    fun hnone => ?_, fun hgroups => ?_⟩
  · exact ⟨Cdf.overallAvg_none hnone, ProcessConnectionStatsFiles.avgStatsAll_none hnone⟩
  · refine ⟨cdfAverages_forall_iff hgroups hsizes, averages_forall_iff hgroups hsizes,
      sameAverages_forall_iff hgroups hsizes, ?_⟩
    obtain ⟨overallAvg, hoverall, hx⟩ := Cdf.overallAvg_exact hgroups
    obtain ⟨avgStatsAll, hfiles, hy⟩ := ProcessConnectionStatsFiles.avgStatsAll_exact hgroups
    refine ⟨overallAvg, avgStatsAll, hoverall, hfiles, fun count hcount => ?_⟩
    rw [hx count hcount, hy count hcount]
    constructor
    · rfl
    · rw [Option.some_inj]
      exact overall_iff hsizes hgroups count (show fullGroup ≠ 0 by decide)
    · rw [Option.some_inj]
      exact files_iff hsizes hgroups count _
    · intro full hfull
      rw [Option.some_inj]
      exact agree_iff hgroups count hfull

/-- 50 connections, for which nothing was counted. -/
def fiftyConnections : StatsInput where
  statsArray _ := ConnectionStats.zero
  count := 1
  connectionCount := 50
  totals := Totals.zero
  clocks := ⟨true, false, ⟨0, 0⟩, ⟨3, 5⟩, ⟨0, 0⟩, ⟨0, 0⟩, ⟨3, 5⟩⟩
  rejected := 0

def evenLogs : List StatsInput :=
  [{ seventyConnections with count := 1, connectionCount := 50 }, fiftyConnections]

/-- Two logs of one full group each. -/
theorem averages_over_logs_evenLogs : averageOf persistentCount evenLogs = 499 / 50 ∧
    CdfAverages evenLogs ∧ FilesAverages evenLogs ∧ SameAverages evenLogs := by
  have hfirst : (writeStatsToFile
      { seventyConnections with count := 1, connectionCount := 50 }).isSome = true := by decide
  have hsecond : (writeStatsToFile fiftyConnections).isSome = true := by decide
  obtain ⟨log, hlog⟩ := Option.isSome_iff_exists.mp hfirst
  obtain ⟨log', hlog'⟩ := Option.isSome_iff_exists.mp hsecond
  have hlogs : List.Forall₂ (fun input log => writeStatsToFile input = some log) evenLogs
      [log, log'] := .cons hlog (.cons hlog' .nil)
  obtain ⟨_, hboth, hsame, _⟩ := (averages_over_logs hlogs).2.2 (List.cons_ne_nil _ _)
  have hone : OneSize evenLogs := ⟨50, by with_unfolding_all decide⟩
  have hnumber : SameNumber evenLogs := ⟨1, by with_unfolding_all decide⟩
  obtain ⟨hcdf, hfiles⟩ := hboth.mpr ⟨hone, hnumber⟩ evenLogs rfl
  exact ⟨by with_unfolding_all decide, hcdf, hfiles, hsame.mpr hnumber evenLogs rfl⟩

def twoLogs : List StatsInput := [seventyConnections, fiftyConnections]

/-- 70 and 50 connections: the average is 499 / 30, and neither script has it. -/
theorem misaveraged_twoLogs :
    (∃ logs, List.Forall₂ (fun input log => writeStatsToFile input = some log) twoLogs logs) ∧
    (∃ overallAvg avgStatsAll,
      Cdf.overallAvgOf Number.exact twoLogs = some (some overallAvg) ∧
      ProcessConnectionStatsFiles.avgStatsAllOf Number.exact twoLogs = some (some avgStatsAll) ∧
      averageOf persistentCount twoLogs = 499 / 30 ∧
      get? overallAvg (Cdf.cleanKey persistentCount.label) = some (3493 / 150) ∧
      get? avgStatsAll (ProcessConnectionStatsFiles.cleanKey persistentCount.label) =
        some (3493 / 200)) ∧
    ¬CdfAverages twoLogs ∧ ¬FilesAverages twoLogs ∧ ¬SameAverages twoLogs := by
  have hgroups : groupedLogs twoLogs ≠ [] := List.cons_ne_nil _ _
  have hcount := persistentCount_additive
  have hwritten : ∃ logs,
      List.Forall₂ (fun input log => writeStatsToFile input = some log) twoLogs logs := by
    have hfirst : (writeStatsToFile seventyConnections).isSome = true := by decide
    have hsecond : (writeStatsToFile fiftyConnections).isSome = true := by decide
    obtain ⟨log, hlog⟩ := Option.isSome_iff_exists.mp hfirst
    obtain ⟨log', hlog'⟩ := Option.isSome_iff_exists.mp hsecond
    exact ⟨[log, log'], .cons hlog (.cons hlog' .nil)⟩
  have haverage : averageOf persistentCount twoLogs = 499 / 30 := by with_unfolding_all decide
  have hoverall : mean ((twoLogs.flatMap (groups persistentCount)).map Sample.mean) =
      3493 / 150 := by
    with_unfolding_all decide
  have hfiles : mean ((groupedLogs twoLogs).map fun input =>
      mean ((groups persistentCount input).map Sample.mean)) = 3493 / 200 := by
    with_unfolding_all decide
  refine ⟨hwritten, ?_, fun h => ?_, fun h => ?_, fun h => ?_⟩
  · obtain ⟨overallAvg, hdict, hx⟩ := Cdf.overallAvg_exact hgroups
    obtain ⟨avgStatsAll, hdict', hy⟩ := ProcessConnectionStatsFiles.avgStatsAll_exact hgroups
    refine ⟨overallAvg, avgStatsAll, hdict, hdict', haverage, ?_, ?_⟩
    · rw [hx persistentCount hcount, hoverall]
    · rw [hy persistentCount hcount, hfiles]
  · have hright := (cdfAverages_iff hgroups).mp h persistentCount hcount
    rw [hoverall, haverage] at hright
    exact absurd hright (by with_unfolding_all decide)
  · have hright := (filesAverages_iff hgroups).mp h persistentCount hcount
    rw [hfiles, haverage] at hright
    exact absurd hright (by with_unfolding_all decide)
  · have hright := (sameAverages_iff hgroups).mp h persistentCount hcount
    rw [hoverall, hfiles] at hright
    exact absurd hright (by with_unfolding_all decide)

end ConnectionOrder.Resultexp3
