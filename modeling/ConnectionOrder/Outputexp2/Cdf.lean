import ConnectionOrder.Outputexp2.Params
import Mathlib.Algebra.Order.BigOperators.Group.List

/-!
# The ratios that are read from the file of the runs

parse_ratios of cdf in outputexp2 takes the file apart at the separators and searches
every piece. The summary of the averages is behind the last separator, and has the
labels of the ratios too.
-/

namespace ConnectionOrder.Outputexp2.Cdf

open PyText FixedPoint Patterns ServerScript

def socket1RatioPattern : Pattern :=
  ⟨"Ratio (Socket 1 before Socket 2 / Total)".toList, .fraction, []⟩

def socket2RatioPattern : Pattern :=
  ⟨"Ratio (Socket 2 before Socket 1 / Total)".toList, .fraction, []⟩

/-- The separator without its first character. -/
def dashes : Text := "-----------------------".toList

/-- The texts that one pattern finds in the runs. -/
def samples (p : Pattern) (content : Text) : List Text := found p '-' dashes content

/-- A file that is not there is `none`; so is the result where float raises an exception. -/
def parseRatios (file : Option Text) : Option (List ℚ × List ℚ) :=
  match file with
  | none => some ([], [])
  | some content =>
    ((samples socket1RatioPattern (textMode content)).mapM float).bind fun socket1Ratios =>
      ((samples socket2RatioPattern (textMode content)).mapM float).map fun socket2Ratios =>
        (socket1Ratios, socket2Ratios)

/-- The ratio that a run printed, if that is a number. -/
def ratio? (p : Pattern) (output : Text) : Option ℚ := (p.search output).bind float

def runRatios (p : Pattern) (results : List (Option Text)) : List ℚ :=
  (outputs results).filterMap (ratio? p)

/-! ## The file, piece by piece -/

/-- A ratio that both scripts look for. -/
structure Ratio where
  param : Param
  pattern : Pattern

def socket1Ratio : Ratio := ⟨firstRatio, socket1RatioPattern⟩

def socket2Ratio : Ratio where
  param := ⟨"Ratio (Socket 2 before Socket 1 / Total)".toList,
    "Ratio (Socket 2 before Socket 1 / Total)".toList, .numeral, []⟩
  pattern := socket2RatioPattern

/-- The two patterns differ in the number alone, and no other key ends in their label. -/
structure Ratio.Ok (r : Ratio) : Prop where
  param : r.param ∈ params
  numeral : r.param.pattern = ⟨r.param.name, .numeral, []⟩
  pattern : r.pattern = ⟨r.param.name, .fraction, []⟩
  ok : r.pattern.Ok
  apart : ∀ param ∈ params, r.pattern.label <:+ param.name → param = r.param
  dash : '-' ∉ r.pattern.label ++ equals

instance (r : Ratio) : Decidable r.Ok :=
  decidable_of_iff (r.param ∈ params ∧ r.param.pattern = ⟨r.param.name, .numeral, []⟩ ∧
      r.pattern = ⟨r.param.name, .fraction, []⟩ ∧ r.pattern.Ok ∧
      (∀ param ∈ params, r.pattern.label <:+ param.name → param = r.param) ∧
      '-' ∉ r.pattern.label ++ equals)
    ⟨fun h => ⟨h.1, h.2.1, h.2.2.1, h.2.2.2.1, h.2.2.2.2.1, h.2.2.2.2.2⟩,
      fun h => ⟨h.param, h.numeral, h.pattern, h.ok, h.apart, h.dash⟩⟩

theorem socket1Ratio_ok : socket1Ratio.Ok := by decide

theorem socket2Ratio_ok : socket2Ratio.Ok := by decide

/-- No name has an equals sign, a dash or a carriage return. -/
theorem names_plain : ∀ param ∈ params, ∀ c ∈ param.name, c ≠ '=' ∧ c ≠ '-' ∧ c ≠ '\x0d' := by
  decide

theorem separator_eq : separator = '-' :: dashes := by decide

theorem numbered_notMem {c : Char} (hc : c.isDigit = false) {front back : Text}
    (hfront : c ∉ front) (hback : c ∉ back) (n : Nat) :
    c ∉ front ++ (Nat.toDigits 10 n ++ back) := by
  intro h
  rcases List.mem_append.mp h with h | h
  · exact hfront h
  · rcases List.mem_append.mp h with h | h
    · exact Bool.eq_false_iff.mp hc (Scan.isDigit_toDigits h)
    · exact hback h

theorem runHeader_notMem {c : Char} (hc : c.isDigit = false) (hfront : c ∉ "Run ".toList)
    (hback : c ∉ " Output:".toList) (run : Nat) : c ∉ runHeader run :=
  numbered_notMem hc hfront hback run

theorem summary_words : "Summary - Average Parameter Values Across ".toList =
    "Summary".toList ++ ' ' ::
      ("-".toList ++ ' ' :: "Average Parameter Values Across ".toList) := by
  decide

/-- A dash between two blanks is no separator. -/
theorem cut_dash {front word dash before rest : Text}
    (h : front = word ++ ' ' :: (dash ++ ' ' :: before)) (hword : cutText separator word = none)
    (hdash : cutText separator dash = none) (hplain : '-' ∉ before ++ rest) :
    cutText separator (front ++ rest) = none := by
  have hne : separator ≠ [] := by decide
  have hspace : ' ' ∉ separator := by decide
  have hrest : cutText separator (before ++ rest) = none := cutText_eq_none (by decide) hplain
  rw [h, List.append_assoc, List.cons_append, List.append_assoc, List.cons_append,
    cutText_stop_none hne hspace hword, cutText_stop_none hne hspace hdash, hrest]
  rfl

/-- There is one dash in the header. -/
theorem cut_summaryHeader (n : Nat) : cutText separator (summaryHeader n) = none := by
  have hword : cutText separator "Summary".toList = none := by decide
  have hdash : cutText separator "-".toList = none := by decide
  have hfront : '-' ∉ "Average Parameter Values Across ".toList := by decide
  have hback : '-' ∉ " Successful Runs:".toList := by decide
  exact cut_dash summary_words hword hdash (numbered_notMem rfl hfront hback n)

section Pieces

variable {r : Ratio} (hr : r.Ok)
include hr

theorem stops_dash : ∀ c ∈ '-' :: dashes, Stops r.pattern c := by
  have hdashes : ∀ c ∈ '-' :: dashes, c = '-' := by decide
  intro c hc
  rw [hdashes c hc]
  refine ⟨hr.dash, rfl, ?_⟩
  rw [hr.pattern]
  exact List.not_mem_nil

theorem samples_line {line : Text} (hequals : '=' ∉ line) (hcut : cutText separator line = none)
    (s : Text) : samples r.pattern (line ++ '\n' :: s) = samples r.pattern s := by
  refine found_line hr.ok.stops (by decide) (search_eq_none fun hinside => hequals ?_)
    (separator_eq ▸ hcut) s
  exact hinside.subset (by decide)

/-- Of a block only the output has samples. -/
theorem samples_block (run : Nat) (output s : Text) :
    samples r.pattern (runBlock run output ++ s) =
      samples r.pattern output ++ samples r.pattern s := by
  have hmark : '-' ∈ separator := by decide
  have hheader : cutText separator (runHeader run) = none :=
    cutText_eq_none hmark (runHeader_notMem rfl (by decide) (by decide) run)
  have hblock : runBlock run output ++ s =
      runHeader run ++ '\n' :: (output ++ '\n' :: ('-' :: dashes ++ ('\n' :: s))) := by
    rw [runBlock, separator_eq]
    simp only [List.append_assoc, List.cons_append, List.nil_append]
  have hempty : samples r.pattern ([] ++ '\n' :: s) = samples r.pattern s :=
    samples_line hr List.not_mem_nil rfl s
  rw [hblock, samples_line hr (runHeader_notMem rfl (by decide) (by decide) run) hheader, samples,
    found_block hr.ok.stops (by decide), ← samples, ← samples, ← hempty, List.nil_append]

theorem samples_blocks (blocks : List (Text × Nat)) (s : Text) :
    samples r.pattern ((blocks.flatMap fun k => runBlock k.2 k.1) ++ s) =
      (blocks.map Prod.fst).flatMap (samples r.pattern) ++ samples r.pattern s := by
  induction blocks with
  | nil => rfl
  | cons block blocks ih =>
    rw [List.flatMap_cons, List.append_assoc, samples_block hr, ih, List.map_cons,
      List.flatMap_cons, List.append_assoc]

end Pieces

/-! ## The summary -/

theorem average_nonneg {param : Param} (hparam : param ∈ params) (results : List (Option Text)) :
    0 ≤ average (runAll results) param.name := by
  obtain ⟨hsum, hcount⟩ := totals_runAll hparam results
  have hvalues : ∀ x ∈ (outputs results).filterMap param.value, 0 ≤ x := by
    intro x hx
    obtain ⟨output, _, hvalue⟩ := List.mem_filterMap.mp hx
    obtain ⟨group, hgroup, hfloat⟩ := Option.bind_eq_some_iff.mp hvalue
    obtain ⟨hne, hnumeral⟩ := (matches_search hgroup).numeral
    exact float_nonneg hnumeral hne hfloat
  rw [average, hsum, hcount]
  exact div_nonneg (List.sum_nonneg hvalues) (Nat.cast_nonneg _)

theorem averageText_notMem {c : Char} (hc : isNumeral c = false)
    (hword : c ∉ "No valid data".toList) {s : State} {name : Text} (h : 0 ≤ average s name) :
    c ∉ averageText s name := by
  rw [averageText]
  split
  · exact fun hmem => Bool.eq_false_iff.mp hc (isNumeral_fixed h hmem)
  · exact hword

theorem averageLines_notMem {c : Char} (hc : isNumeral c = false)
    (hword : c ∉ "No valid data".toList) (hequals : c ∉ equals ++ ['\n'])
    (hnames : ∀ param ∈ params, c ∉ param.name) {s : State}
    (h : ∀ param ∈ params, 0 ≤ average s param.name) :
    c ∉ Lines.terminate '\n' (params.map fun param =>
      param.name ++ (equals ++ averageText s param.name)) := by
  rw [List.mem_append, not_or] at hequals
  intro hmem
  rw [Lines.terminate, List.flatMap_map] at hmem
  obtain ⟨param, hparam, hmem⟩ := List.mem_flatMap.mp hmem
  rcases List.mem_append.mp hmem with hline | hend
  · rcases List.mem_append.mp hline with hname | hline
    · exact hnames param hparam hname
    · rcases List.mem_append.mp hline with hmem | haverage
      · exact hequals.1 hmem
      · exact averageText_notMem hc hword (h param hparam) haverage
  · exact hequals.2 hend

theorem summaryHeader_notMem {c : Char} (hc : c.isDigit = false)
    (hfront : c ∉ "Summary - Average Parameter Values Across ".toList)
    (hback : c ∉ " Successful Runs:".toList) (n : Nat) : c ∉ summaryHeader n :=
  numbered_notMem hc hfront hback n

section Summary

theorem matches_fixed {x : ℚ} (h : 0 ≤ x) : Number.fraction.Matches (fixed 6 x) := by
  rw [fixed_of_nonneg h]
  refine ⟨_, _, rfl, wholeDigits_ne_nil _, ?_, fun _ => isDigit_wholeDigits _,
    fun _ => isDigit_placeDigits _⟩
  rw [← List.length_pos_iff, length_placeDigits _ (by decide)]
  decide

variable {r : Ratio} (hr : r.Ok)
include hr

theorem value_average {s : State} (h : 0 ≤ average s r.param.name) :
    r.pattern.value (averageText s r.param.name) =
      if 0 < s.paramCounts r.param.name then some (fixed 6 (average s r.param.name)) else none := by
  rw [averageText]
  split
  · have hmatches : r.pattern.number.Matches (fixed 6 (average s r.param.name)) := by
      rw [hr.pattern]
      exact matches_fixed h
    have hunit : r.pattern.unit = [] := by rw [hr.pattern]
    have hown := value_own hr.ok.number hmatches
    rwa [hunit, List.append_nil] at hown
  · refine value_eq_none ?_
    rintro c ⟨⟩
    rfl

theorem search_averages {s : State} (h : ∀ param ∈ params, '=' ∉ averageText s param.name)
    {ps : List Param} (hps : ps ⊆ params) :
    (ps.map fun param => param.name ++ (equals ++ averageText s param.name)).findSome?
        r.pattern.search =
      if r.param ∈ ps then r.pattern.value (averageText s r.param.name) else none := by
  have hnames : ∀ param ∈ params, '=' ∉ param.name :=
    fun param hparam hmem => (names_plain param hparam _ hmem).1 rfl
  induction ps with
  | nil => rfl
  | cons param ps ih =>
    have hparam : param ∈ params := hps List.mem_cons_self
    have hrest := ih fun _ hmem => hps (List.mem_cons_of_mem param hmem)
    rw [List.map_cons, List.findSome?_cons, hrest]
    cases Decidable.em (r.param = param) with
    | inl heq =>
      have hlabel : r.pattern.label = param.name := by rw [hr.pattern, heq]
      rw [search_own hr.ok.label (hnames param hparam) (h param hparam) hr.ok.nonempty hlabel,
        if_pos (List.mem_cons.mpr (.inl heq)), ← heq]
      cases r.pattern.value (averageText s r.param.name) with
      | none => exact ite_self none
      | some group => rfl
    | inr hne =>
      have hsuffix : ¬r.pattern.label <:+ param.name :=
        fun hsuffix => hne (hr.apart param hparam hsuffix).symm
      rw [search_other hr.ok.label (hnames param hparam) (h param hparam) hr.ok.nonempty hsuffix]
      simp only [List.mem_cons, hne, false_or]

/-- Only the line of the ratio is found in the summary, and only with a number. -/
theorem samples_summary (results : List (Option Text)) :
    samples r.pattern (Lines.terminate '\n' (summaryLines (runAll results))) =
      if 0 < (runAll results).paramCounts r.param.name then
        [fixed 6 (average (runAll results) r.param.name)] else [] := by
  have haverages : ∀ param ∈ params, 0 ≤ average (runAll results) param.name :=
    fun param hparam => average_nonneg hparam results
  have hequals : ∀ param ∈ params, '=' ∉ averageText (runAll results) param.name :=
    fun param hparam => averageText_notMem rfl (by decide) (haverages param hparam)
  have hmark : '-' ∈ separator := by decide
  have hdash : ∀ param ∈ params, '-' ∉ param.name :=
    fun param hparam hmem => (names_plain param hparam _ hmem).2.1 rfl
  have hcut := cutText_eq_none hmark
    (averageLines_notMem rfl (by decide) (by decide) hdash haverages)
  have hheader : '=' ∉ summaryHeader (runAll results).successfulRuns :=
    summaryHeader_notMem rfl (by decide) (by decide) _
  rw [summaryLines, Lines.terminate_cons, Lines.terminate_cons,
    samples_line hr List.not_mem_nil rfl, samples_line hr hheader (cut_summaryHeader _), samples,
    found_none (separator_eq ▸ hcut)]
  have hsearch := search_terminate hr.ok.stops
    (params.map fun param => param.name ++ (equals ++ averageText (runAll results) param.name)) []
  rw [List.append_nil, search_averages hr hequals (List.Subset.refl params), if_pos hr.param,
    value_average hr (haverages _ hr.param), Pattern.search, Option.or_none] at hsearch
  rw [hsearch]
  split <;> rfl

end Summary

/-! ## The whole file -/

theorem outputs_notMem {results : List (Option Text)} {output : Text}
    (h : output ∈ outputs results) : '\x0d' ∉ output := by
  obtain ⟨result, _, houtput⟩ := List.mem_filterMap.mp h
  obtain ⟨file, _, hfile⟩ := Option.bind_eq_some_iff.mp houtput
  rw [Option.ite_none_right_eq_some] at hfile
  cases hfile.2
  exact textMode_notMem file

theorem runBlock_notMem {c : Char} {run : Nat} (hheader : c ∉ runHeader run)
    (hmarks : c ∉ '\n' :: separator) {output : Text} (h : c ∉ output) :
    c ∉ runBlock run output := by
  rw [List.mem_cons, not_or] at hmarks
  rw [runBlock]
  simp only [List.mem_append, List.mem_cons, List.not_mem_nil, not_or]
  exact ⟨hheader, hmarks.1, h, hmarks.1, hmarks.2, hmarks.1, id⟩

theorem textMode_outputFile (results : List (Option Text)) :
    textMode (outputFile results) = outputFile results := by
  have hnames : ∀ param ∈ params, '\x0d' ∉ param.name :=
    fun param hparam hmem => (names_plain param hparam _ hmem).2.2 rfl
  have hmarks : '\x0d' ∉ '\n' :: separator := by decide
  refine textMode_eq fun hmem => ?_
  rcases List.mem_append.mp hmem with hfile | hsummary
  · rw [file_runAll] at hfile
    obtain ⟨block, hblock, hmem⟩ := List.mem_flatMap.mp hfile
    have houtput : block.1 ∈ outputs results := by
      rw [← kept_outputs results 1]
      exact List.mem_map_of_mem hblock
    have hheader : '\x0d' ∉ runHeader block.2 := runHeader_notMem rfl (by decide) (by decide) _
    exact runBlock_notMem hheader hmarks (outputs_notMem houtput) hmem
  · rw [summaryLines, Lines.terminate_cons, Lines.terminate_cons] at hsummary
    simp only [List.nil_append, List.mem_cons, List.mem_append] at hsummary
    rcases hsummary with heq | hheader | heq | hlines
    · cases heq
    · exact summaryHeader_notMem rfl (by decide) (by decide) _ hheader
    · cases heq
    · exact averageLines_notMem rfl (by decide) (by decide) hnames
        (fun param hparam => average_nonneg hparam results) hlines

theorem mapM_float {groups : List Text} (h : ∀ group ∈ groups, (float group).isSome) :
    groups.mapM float = some (groups.filterMap float) := by
  induction groups with
  | nil => rfl
  | cons group groups ih =>
    obtain ⟨x, hx⟩ := Option.isSome_iff_exists.mp (h group List.mem_cons_self)
    have hrest := ih fun _ hmem => h _ (List.mem_cons_of_mem group hmem)
    rw [List.mapM_cons, hx, hrest, List.filterMap_cons, hx]
    rfl

/-- What is read of one ratio: the samples of every run, and the average. -/
def Ratio.values (r : Ratio) (results : List (Option Text)) : List ℚ :=
  ((outputs results).flatMap fun output => (samples r.pattern output).filterMap float) ++
    if 0 < (runAll results).paramCounts r.param.name then
      [rounded 6 (average (runAll results) r.param.name)] else []

section File

variable {r : Ratio} (hr : r.Ok)
include hr

theorem samples_outputFile (results : List (Option Text)) :
    samples r.pattern (outputFile results) = (outputs results).flatMap (samples r.pattern) ++
      if 0 < (runAll results).paramCounts r.param.name then
        [fixed 6 (average (runAll results) r.param.name)] else [] := by
  rw [outputFile, file_runAll, samples_blocks hr, kept_outputs, samples_summary hr]

theorem isSome_float {content group : Text} (h : group ∈ samples r.pattern content) :
    (float group).isSome := by
  obtain ⟨piece, _, hsearch⟩ := List.mem_filterMap.mp h
  have hmatches := matches_search hsearch
  rw [hr.pattern] at hmatches
  exact float_fraction hmatches

/-- float accepts every text that is found. -/
theorem mapM_samples (results : List (Option Text)) :
    (samples r.pattern (textMode (outputFile results))).mapM float = some (r.values results) := by
  rw [mapM_float fun _ hgroup => isSome_float hr hgroup, textMode_outputFile,
    samples_outputFile hr, List.filterMap_append, List.filterMap_flatMap, Ratio.values]
  congr 2
  split
  · rw [List.filterMap_cons, float_fixed (by decide)]
    rfl
  · rfl

end File

theorem parseRatios_outputFile (results : List (Option Text)) :
    parseRatios (some (outputFile results)) =
      some (socket1Ratio.values results, socket2Ratio.values results) := by
  have hsocket1 := mapM_samples socket1Ratio_ok results
  have hsocket2 := mapM_samples socket2Ratio_ok results
  rw [parseRatios]
  change ((samples socket1Ratio.pattern _).mapM float).bind _ = _
  rw [hsocket1, Option.bind_some]
  change ((samples socket2Ratio.pattern _).mapM float).map _ = _
  rw [hsocket2, Option.map_some]

/-! ## One sample for each run -/

section Heads

universe u v

variable {α : Type u} {β : Type v} (f : α → List β)

theorem length_heads_le (l : List α) :
    (l.filterMap fun a => (f a).head?).length ≤ (l.flatMap f).length := by
  induction l with
  | nil => exact Nat.le_refl 0
  | cons a l ih =>
    rw [List.filterMap_cons, List.flatMap_cons, List.length_append]
    cases f a with
    | nil => exact Nat.le_add_left_of_le ih
    | cons b bs =>
      rw [List.head?_cons, List.length_cons, List.length_cons]
      omega

/-- All elements are the first ones where there is no second one. -/
theorem flatMap_append_eq_heads (l : List α) (rest : List β) :
    l.flatMap f ++ rest = (l.filterMap fun a => (f a).head?) ↔
      (∀ a ∈ l, (f a).length ≤ 1) ∧ rest = [] := by
  induction l with
  | nil => simp
  | cons a l ih =>
    rw [List.flatMap_cons, List.filterMap_cons, List.append_assoc, List.forall_mem_cons, and_assoc]
    cases f a with
    | nil => simpa using ih
    | cons b bs =>
      cases bs with
      | nil => simpa using ih
      | cons b' bs =>
        refine ⟨fun h => ?_, fun h => absurd h.1 (by simp)⟩
        have hlength := congrArg List.length h
        have hle := length_heads_le f l
        simp only [List.head?_cons, List.length_append, List.length_cons] at hlength
        omega

end Heads

/-- There is no average of the ratio, and no output has the ratio in two of its pieces. -/
def Ratio.Single (r : Ratio) (results : List (Option Text)) : Prop :=
  ∀ output ∈ outputs results, r.param.value output = none ∧
    (split '-' dashes output).countP (fun piece => (r.pattern.search piece).isSome) ≤ 1

section Single

variable {r : Ratio} (hr : r.Ok)
include hr

theorem length_samples (output : Text) : ((samples r.pattern output).filterMap float).length =
    (split '-' dashes output).countP fun piece => (r.pattern.search piece).isSome := by
  have hall : ∀ group ∈ samples r.pattern output, (float group).isSome :=
    fun _ hgroup => isSome_float hr hgroup
  rw [List.filterMap_length_eq_length.mpr hall, samples, found, List.length_filterMap_eq_countP]

theorem head_samples (output : Text) :
    ((samples r.pattern output).filterMap float).head? = ratio? r.pattern output := by
  have hhead : (samples r.pattern output).head? = r.pattern.search output :=
    head_found (stops_dash hr) output
  rw [ratio?, ← hhead]
  cases hsamples : samples r.pattern output with
  | nil => rfl
  | cons group groups =>
    have hgroup : group ∈ samples r.pattern output := hsamples ▸ List.mem_cons_self
    obtain ⟨x, hx⟩ := Option.isSome_iff_exists.mp (isSome_float hr hgroup)
    rw [List.filterMap_cons, hx, List.head?_cons, List.head?_cons, Option.bind_some, hx]

theorem values_eq_iff (results : List (Option Text)) :
    r.values results = runRatios r.pattern results ↔ r.Single results := by
  have hcount := (totals_runAll hr.param results).2
  have hheads : runRatios r.pattern results = (outputs results).filterMap fun output =>
      ((samples r.pattern output).filterMap float).head? := by
    simp only [head_samples hr]
    rfl
  have hnone : (runAll results).paramCounts r.param.name = 0 ↔
      ∀ output ∈ outputs results, r.param.value output = none := by
    rw [hcount, List.length_eq_zero_iff, List.filterMap_eq_nil_iff]
  have haverage : ((if 0 < (runAll results).paramCounts r.param.name then
      [rounded 6 (average (runAll results) r.param.name)] else []) = []) ↔
        (runAll results).paramCounts r.param.name = 0 := by
    rw [ite_eq_right_iff]
    refine ⟨fun h => Nat.eq_zero_of_not_pos fun hpos => ?_, fun h hpos => ?_⟩
    · cases h hpos
    · exact absurd h (Nat.ne_of_gt hpos)
  rw [hheads, Ratio.values, flatMap_append_eq_heads, haverage, hnone, Ratio.Single]
  simp only [length_samples hr, forall_and, and_comm]

end Single

/-! ## The reports of the server -/

section Reports

variable {r : Ratio} (hr : r.Ok)
include hr

/-- What the script finds as a numeral is found as a fraction. -/
theorem search_param {output : Text} (h : ∀ group, r.param.pattern.search output = some group →
    Number.fraction.Matches group) :
    r.pattern.search output = r.param.pattern.search output := by
  rw [hr.numeral] at h ⊢
  rw [hr.pattern]
  exact search_fraction h

theorem count_none {output : Text} (h : r.pattern.search output = none) :
    (split '-' dashes output).countP (fun piece => (r.pattern.search piece).isSome) = 0 := by
  have hhead := head_samples hr output
  rw [ratio?, h, Option.bind_none, List.head?_eq_none_iff] at hhead
  rw [← length_samples hr, hhead]
  rfl

/-- Of reports the list is that of the runs only where no run printed the ratio. -/
theorem single_reports {runs : List (Option Output)}
    (hruns : ∀ o, some o ∈ runs → o.NonNegative) :
    r.Single (runs.map (Option.map Output.text)) ↔
      ∀ o, some o ∈ runs → o.number? r.param.name = none := by
  have hmem : ∀ o, some o ∈ runs ↔ o ∈ runs.filterMap id := fun o => by
    simp only [List.mem_filterMap, id, exists_eq_right]
  rw [Ratio.Single, outputs_texts, List.forall_mem_map]
  refine ⟨fun h o ho => ?_, fun h o ho => ?_⟩
  · rw [← value_output hr.param (hruns o ho)]
    exact (h o ((hmem o).mp ho)).1
  · have hrun := (hmem o).mpr ho
    have hnumber := h o hrun
    have hsearch : r.param.pattern.search (textMode o.text) = none := by
      rw [search_finite hr.param (hruns o hrun)]
      cases hfigure : o.figure? r.param.name with
      | none => rfl
      | some f =>
        rw [Output.number?, hfigure, Option.bind_some] at hnumber
        rw [Option.bind_some, hnumber, Option.map_none]
    have hfraction := search_param hr fun _ hfound => by cases hsearch.symm.trans hfound
    refine ⟨?_, ?_⟩
    · rw [value_output hr.param (hruns o hrun), hnumber]
    · rw [count_none hr (hfraction.trans hsearch)]
      exact Nat.zero_le 1

end Reports

/-- The list of the file is that of the runs only where the summary has no average. -/
theorem parseRatios_eq_runRatios_iff (results : List (Option Text)) :
    parseRatios (some (outputFile results)) =
        some (runRatios socket1RatioPattern results, runRatios socket2RatioPattern results) ↔
      socket1Ratio.Single results ∧ socket2Ratio.Single results := by
  have hsocket1 := values_eq_iff socket1Ratio_ok results
  have hsocket2 := values_eq_iff socket2Ratio_ok results
  rw [parseRatios_outputFile, Option.some_inj, Prod.mk.injEq]
  exact and_congr hsocket1 hsocket2

/-- A ratio that is printed once is read twice. -/
theorem values_once {r : Ratio} (hr : r.Ok) {result output group : Text} {x : ℚ}
    (houtput : output? (some result) = some output)
    (hsearch : r.param.pattern.search output = some group)
    (hgroup : Number.fraction.Matches group) (hfloat : float group = some x)
    (hcut : cutText separator output = none) :
    r.values [some result] = [x, rounded 6 x] ∧ runRatios r.pattern [some result] = [x] := by
  have houtputs : outputs [some result] = [output] := by
    rw [outputs, List.filterMap_cons, houtput]
    rfl
  have hfraction : r.pattern.search output = some group := by
    refine (search_param hr fun _ hfound => ?_).trans hsearch
    cases hsearch.symm.trans hfound
    exact hgroup
  have hvalue : r.param.value output = some x := by
    rw [Param.value, hsearch, Option.bind_some, hfloat]
  have hratio : ratio? r.pattern output = some x := by
    rw [ratio?, hfraction, Option.bind_some, hfloat]
  obtain ⟨hsum, hcount⟩ := totals_runAll hr.param [some result]
  rw [houtputs, List.filterMap_cons, hvalue] at hsum hcount
  have haverage : average (runAll [some result]) r.param.name = x := by
    rw [average, hsum, hcount]
    simp
  refine ⟨?_, ?_⟩
  · rw [Ratio.values, houtputs, haverage, hcount, List.flatMap_singleton, samples,
      found_none (separator_eq ▸ hcut), hfraction, Option.toList_some, List.filterMap_cons, hfloat]
    rfl
  · rw [runRatios, houtputs, List.filterMap_cons, hratio]
    rfl

set_option maxRecDepth 4000 in
theorem cut_busyRun : cutText separator (textMode busyRun.text) = none := by
  with_unfolding_all decide

/-- Three pairs in one order and one in the other give two samples of each ratio. -/
theorem parseRatios_busyRun :
    parseRatios (some (outputFile [some busyRun.text])) = some ([3 / 4, 3 / 4], [1 / 4, 1 / 4]) ∧
      parseRatios (some (outputFile [some busyRun.text])) ≠
        some (runRatios socket1RatioPattern [some busyRun.text],
          runRatios socket2RatioPattern [some busyRun.text]) := by
  have houtput : output? (some busyRun.text) = some (textMode busyRun.text) := output?_text busyRun
  have hsearch1 : socket1Ratio.param.pattern.search (textMode busyRun.text) =
      some "0.750000".toList :=
    (search_output socket1Ratio_ok.param busyRun).trans (by with_unfolding_all decide)
  have hsearch2 : socket2Ratio.param.pattern.search (textMode busyRun.text) =
      some "0.250000".toList :=
    (search_output socket2Ratio_ok.param busyRun).trans (by with_unfolding_all decide)
  have hmatches1 : Number.fraction.Matches "0.750000".toList :=
    ⟨"0".toList, "750000".toList, by decide⟩
  have hmatches2 : Number.fraction.Matches "0.250000".toList :=
    ⟨"0".toList, "250000".toList, by decide⟩
  have hfloat1 : float "0.750000".toList = some (3 / 4) := by with_unfolding_all decide
  have hfloat2 : float "0.250000".toList = some (1 / 4) := by with_unfolding_all decide
  have hrounded1 : rounded 6 (3 / 4) = 3 / 4 := by with_unfolding_all decide
  have hrounded2 : rounded 6 (1 / 4) = 1 / 4 := by with_unfolding_all decide
  obtain ⟨hvalues1, hratios1⟩ :=
    values_once socket1Ratio_ok houtput hsearch1 hmatches1 hfloat1 cut_busyRun
  obtain ⟨hvalues2, hratios2⟩ :=
    values_once socket2Ratio_ok houtput hsearch2 hmatches2 hfloat2 cut_busyRun
  rw [parseRatios_outputFile, hvalues1, hvalues2, hrounded1, hrounded2]
  refine ⟨rfl, fun heq => ?_⟩
  have hsocket1 := congrArg List.length (Prod.mk.inj (Option.some_inj.mp heq)).1
  change 2 = (runRatios socket1Ratio.pattern [some busyRun.text]).length at hsocket1
  rw [hratios1] at hsocket1
  cases hsocket1

end ConnectionOrder.Outputexp2.Cdf
