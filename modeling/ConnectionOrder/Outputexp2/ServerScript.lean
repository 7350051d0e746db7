import ConnectionOrder.Patterns
import Mathlib.Algebra.BigOperators.Group.List.Basic

/-!
# The script that runs the server several times

server_Script of outputexp2: what it takes from the output of each run, and the file that
it writes. A run that raises an exception, as for a timeout, is `none`; of another one
there is what the file with its output holds. Messages are left out.
-/

namespace ConnectionOrder.Outputexp2.ServerScript

open PyText FixedPoint Patterns

/-- A key of PARAMS and the pattern behind it. -/
structure Param where
  name : Text
  pattern : Pattern
deriving DecidableEq

def params : List Param :=
  [⟨"Throughput Conn1".toList, "Throughput Conn1".toList, .numeral, " Mbps".toList⟩,
    ⟨"Throughput Conn2".toList, "Throughput Conn2".toList, .numeral, " Mbps".toList⟩,
    ⟨"Socket 1 before Socket 2".toList, "Socket 1 before Socket 2".toList, .digits,
      " times".toList⟩,
    ⟨"Socket 2 before Socket 1".toList, "Socket 2 before Socket 1".toList, .digits,
      " times".toList⟩,
    ⟨"Socket 2 and Socket 1".toList, "Socket 2 and Socket 1".toList, .digits, " times".toList⟩,
    ⟨"Conn1 bytes".toList, "Conn1 bytes".toList, .digits, []⟩,
    ⟨"Conn2 bytes".toList, "Conn2 bytes".toList, .digits, []⟩,
    ⟨"Conn1 packets".toList, "Conn1 packets".toList, .digits, []⟩,
    ⟨"Conn2 packets".toList, "Conn2 packets".toList, .digits, []⟩,
    ⟨"Conn1 duration".toList, "Conn1 duration".toList, .numeral, " sec".toList⟩,
    ⟨"Conn2 duration".toList, "Conn2 duration".toList, .numeral, " sec".toList⟩,
    ⟨"First Socket Count".toList, "First Socket Count".toList, .digits, []⟩,
    ⟨"Second Socket Count".toList, "Second Socket Count".toList, .digits, []⟩,
    ⟨"Total Time".toList, "Total Time".toList, .numeral, " sec".toList⟩,
    ⟨"Ratio (Socket 1 before Socket 2 / Total)".toList,
      "Ratio (Socket 1 before Socket 2 / Total)".toList, .numeral, []⟩,
    ⟨"Ratio (Socket 2 before Socket 1 / Total)".toList,
      "Ratio (Socket 2 before Socket 1 / Total)".toList, .numeral, []⟩,
    ⟨"Throughput".toList, "Throughput".toList, .numeral, " Mbps".toList⟩]

/-- One of them, for the first socket. -/
def firstRatio : Param :=
  ⟨"Ratio (Socket 1 before Socket 2 / Total)".toList,
    "Ratio (Socket 1 before Socket 2 / Total)".toList, .numeral, []⟩

/-- The file and the globals. The two dictionaries have the keys of PARAMS throughout. -/
structure State where
  file : Text
  paramSums : Text → ℚ
  paramCounts : Text → Nat
  successfulRuns : Nat

def start : State := ⟨[], fun _ => 0, fun _ => 0, 0⟩

/-- What a pattern finds as a number; float may still raise a ValueError. -/
def Param.value (param : Param) (output : Text) : Option ℚ :=
  (param.pattern.search output).bind float

def extractParam (output : Text) (s : State) (param : Param) : State :=
  match param.value output with
  | none => s
  | some value =>
    { s with
      paramSums := Function.update s.paramSums param.name (s.paramSums param.name + value)
      paramCounts := Function.update s.paramCounts param.name (s.paramCounts param.name + 1) }

def runHeader (run : Nat) : Text := "Run ".toList ++ (Nat.toDigits 10 run ++ " Output:".toList)

def separator : Text := "------------------------".toList

def runBlock (run : Nat) (output : Text) : Text :=
  runHeader run ++ '\n' :: (output ++ '\n' :: (separator ++ ['\n']))

def extractParams (s : State) (output : Text) (run : Nat) : State :=
  params.foldl (extractParam output) { s with file := s.file ++ runBlock run output }

def expected : Text := "Throughput Conn1".toList

/-- The output of a run, unless it is incomplete. -/
def output? (result : Option Text) : Option Text :=
  result.bind fun file =>
    if (cutText expected (textMode file)).isSome then some (textMode file) else none

def runServer (s : State) (result : Option Text) (run : Nat) : State :=
  match output? result with
  | none => s
  | some output =>
    let s := extractParams s output run
    { s with successfulRuns := s.successfulRuns + 1 }

def runAll (results : List (Option Text)) : State :=
  (results.zipIdx 1).foldl (fun s result => runServer s result.1 result.2) start

def summaryHeader (successfulRuns : Nat) : Text :=
  "Summary - Average Parameter Values Across ".toList ++
    (Nat.toDigits 10 successfulRuns ++ " Successful Runs:".toList)

def average (s : State) (name : Text) : ℚ := s.paramSums name / s.paramCounts name

def averageText (s : State) (name : Text) : Text :=
  if 0 < s.paramCounts name then fixed 6 (average s name) else "No valid data".toList

def summaryLines (s : State) : List Text :=
  [] :: summaryHeader s.successfulRuns ::
    params.map fun param => param.name ++ (equals ++ averageText s param.name)

/-- OUTPUT_FILE at the end. -/
def outputFile (results : List (Option Text)) : Text :=
  (runAll results).file ++ Lines.terminate '\n' (summaryLines (runAll results))

/-! ## What the runs add up to -/

/-- The outputs that are kept, with the numbers of their runs. -/
def kept (results : List (Option Text × Nat)) : List (Text × Nat) :=
  results.filterMap fun result => (output? result.1).map fun output => (output, result.2)

def outputs (results : List (Option Text)) : List Text := results.filterMap output?

theorem kept_cons (result : Option Text) (run : Nat) (results : List (Option Text × Nat)) :
    kept ((result, run) :: results) =
      ((output? result).map fun output => (output, run)).toList ++ kept results := by
  rw [kept, List.filterMap_cons, ← kept]
  cases output? result with
  | none => rfl
  | some output => rfl

theorem kept_outputs (results : List (Option Text)) (n : Nat) :
    (kept (results.zipIdx n)).map Prod.fst = outputs results := by
  induction results generalizing n with
  | nil => rfl
  | cons result results ih =>
    rw [List.zipIdx_cons, kept_cons, List.map_append, ih, outputs, outputs, List.filterMap_cons]
    cases output? result with
    | none => rfl
    | some output => rfl

/-- The values that are added for one key. -/
structure Adds (s s' : State) (name : Text) (values : List ℚ) : Prop where
  sum : s'.paramSums name = s.paramSums name + values.sum
  count : s'.paramCounts name = s.paramCounts name + values.length

theorem Adds.refl (s : State) (name : Text) : Adds s s name [] :=
  ⟨(add_zero _).symm, rfl⟩

theorem Adds.trans {s s' s'' : State} {name : Text} {values more : List ℚ}
    (h : Adds s s' name values) (h' : Adds s' s'' name more) :
    Adds s s'' name (values ++ more) := by
  refine ⟨?_, ?_⟩
  · rw [h'.sum, h.sum, List.sum_append, add_assoc]
  · rw [h'.count, h.count, List.length_append, add_assoc]

theorem adds_extractParam (output : Text) (s : State) (param : Param) :
    Adds s (extractParam output s param) param.name (param.value output).toList := by
  rw [extractParam]
  cases param.value output with
  | none => exact Adds.refl s param.name
  | some value =>
    refine ⟨?_, ?_⟩
    · exact (Function.update_self _ _ _).trans (by rw [Option.toList_some, List.sum_singleton])
    · exact Function.update_self _ _ _

theorem adds_other {output name : Text} {param : Param} (h : param.name ≠ name) (s : State) :
    Adds s (extractParam output s param) name [] := by
  rw [extractParam]
  cases param.value output with
  | none => exact Adds.refl s name
  | some value =>
    refine ⟨?_, ?_⟩
    · exact (Function.update_of_ne h.symm _ _).trans (add_zero _).symm
    · exact Function.update_of_ne h.symm _ _

theorem adds_others (output : Text) {name : Text} {ps : List Param} (h : name ∉ ps.map Param.name)
    (s : State) : Adds s (ps.foldl (extractParam output) s) name [] := by
  induction ps generalizing s with
  | nil => exact Adds.refl s name
  | cons param ps ih =>
    rw [List.map_cons, List.mem_cons, not_or] at h
    exact (adds_other (Ne.symm h.1) s).trans (ih h.2 _)

/-- No two patterns add to the same key. -/
theorem adds_params (output : Text) {ps : List Param} (hnodup : (ps.map Param.name).Nodup)
    {param : Param} (hparam : param ∈ ps) (s : State) :
    Adds s (ps.foldl (extractParam output) s) param.name (param.value output).toList := by
  induction ps generalizing s with
  | nil => cases hparam
  | cons other ps ih =>
    rw [List.map_cons, List.nodup_cons] at hnodup
    rw [List.foldl_cons]
    cases List.mem_cons.mp hparam with
    | inl heq =>
      have hfirst := (adds_extractParam output s param).trans
        (adds_others output (heq ▸ hnodup.1) (extractParam output s param))
      rw [List.append_nil] at hfirst
      exact heq ▸ hfirst
    | inr hlater =>
      have hne : other.name ≠ param.name :=
        fun hsame => hnodup.1 (hsame ▸ List.mem_map_of_mem hlater)
      exact (adds_other hne s).trans (ih hnodup.2 hlater _)

theorem names_nodup : (params.map Param.name).Nodup := by decide

theorem adds_runServer {param : Param} (hparam : param ∈ params) (s : State)
    (result : Option Text) (run : Nat) : Adds s (runServer s result run) param.name
      ((output? result).bind param.value).toList := by
  rw [runServer]
  cases output? result with
  | none => exact Adds.refl s param.name
  | some output =>
    obtain ⟨hsum, hcount⟩ := adds_params output names_nodup hparam
      { s with file := s.file ++ runBlock run output }
    exact ⟨hsum, hcount⟩

theorem adds_runs {param : Param} (hparam : param ∈ params) (results : List (Option Text))
    (n : Nat) (s : State) :
    Adds s ((results.zipIdx n).foldl (fun s result => runServer s result.1 result.2) s) param.name
      ((outputs results).filterMap param.value) := by
  induction results generalizing n s with
  | nil => exact Adds.refl s param.name
  | cons result results ih =>
    have hfirst := (adds_runServer hparam s result n).trans (ih (n + 1) (runServer s result n))
    rw [List.zipIdx_cons, List.foldl_cons, outputs, List.filterMap_cons, ← outputs]
    cases houtput : output? result with
    | none =>
      rw [houtput] at hfirst
      exact hfirst
    | some output =>
      rw [houtput, Option.bind_some] at hfirst
      rw [List.filterMap_cons]
      cases hvalue : param.value output with
      | none =>
        rw [hvalue] at hfirst
        exact hfirst
      | some value =>
        rw [hvalue] at hfirst
        exact hfirst

/-- The sums and counts at the end. -/
theorem totals_runAll {param : Param} (hparam : param ∈ params) (results : List (Option Text)) :
    (runAll results).paramSums param.name = ((outputs results).filterMap param.value).sum ∧
      (runAll results).paramCounts param.name =
        ((outputs results).filterMap param.value).length := by
  obtain ⟨hsum, hcount⟩ := adds_runs hparam results 1 start
  exact ⟨hsum.trans (zero_add _), hcount.trans (Nat.zero_add _)⟩

/-! ## The blocks of the file -/

theorem file_extractParam (output : Text) (s : State) (param : Param) :
    (extractParam output s param).file = s.file := by
  rw [extractParam]
  cases param.value output with
  | none => rfl
  | some value => rfl

theorem file_params (output : Text) (ps : List Param) (s : State) :
    (ps.foldl (extractParam output) s).file = s.file := by
  induction ps generalizing s with
  | nil => rfl
  | cons param ps ih => rw [List.foldl_cons, ih, file_extractParam]

theorem file_runs (results : List (Option Text)) (n : Nat) (s : State) :
    ((results.zipIdx n).foldl (fun s result => runServer s result.1 result.2) s).file =
      s.file ++ (kept (results.zipIdx n)).flatMap fun k => runBlock k.2 k.1 := by
  induction results generalizing n s with
  | nil => exact (List.append_nil _).symm
  | cons result results ih =>
    rw [List.zipIdx_cons, List.foldl_cons, ih, kept_cons, runServer]
    cases output? result with
    | none => rfl
    | some output =>
      dsimp only
      rw [extractParams, file_params, Option.map_some, Option.toList_some, List.flatMap_append,
        List.flatMap_singleton, List.append_assoc]

theorem file_runAll (results : List (Option Text)) : (runAll results).file =
    (kept (results.zipIdx 1)).flatMap fun k => runBlock k.2 k.1 := by
  rw [runAll, file_runs]
  exact List.nil_append _

end ConnectionOrder.Outputexp2.ServerScript
