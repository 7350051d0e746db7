import ConnectionOrder.PyDict
import ConnectionOrder.Rows

/-!
# The scripts that read the stats logs

parse_file of process_connection_stats_files and of cdf, and load_file of avg and of
avg2. A file that is not there is `none`; so is the result where an exception is not
caught. What the scripts print on the way is left out.
-/

namespace ConnectionOrder.Resultexp3

open PyText FixedPoint PyDict

/-- float(s.split()[0]): the outer `none` is an IndexError, the inner a ValueError. -/
def firstFloat (s : Text) : Option (Option ℚ) := (firstWord s).map float

/-! ## process_connection_stats_files -/

namespace ProcessConnectionStatsFiles

inductive Value where
  | number (x : ℚ)
  | text (s : Text)
deriving DecidableEq

abbrev Metrics := Dict Text Value

/-- The variables of parse_file. -/
structure Reading where
  connectionSummaries : List Metrics
  overallSummary : Metrics
  currentSummary : Option Metrics
  inOverall : Bool

def dropWord (word s : Text) : Option Text :=
  if startsWith word s then some (s.drop word.length) else none

/-- \d+ -/
def dropDigits (s : Text) : Option Text :=
  if s.takeWhile Char.isDigit = [] then none else some (s.dropWhile Char.isDigit)

def summaryFor : Text := "Summary for Connections ".toList
def upTo : Text := " to ".toList

/-- re.match(r"Summary for Connections \d+ to \d+:", line) -/
def matchesSummary (line : Text) : Bool :=
  ((dropWord summaryFor line).bind fun s =>
    (dropDigits s).bind fun s =>
      (dropWord upTo s).bind fun s =>
        (dropDigits s).bind fun s => dropWord [':'] s).isSome

def overallStart : Text := "Overall Statistics (Averaged):".toList

def cleanKey (key : Text) : Text := lower (replace [' '] ['_'] key)

def cleanValue (value : Text) : Option Value :=
  (firstFloat value).map fun x =>
    match x with
    | some x => .number x
    | none => .text value

def store (r : Reading) (key : Text) (value : Value) : Reading :=
  if r.inOverall then { r with overallSummary := set r.overallSummary key value }
  else { r with currentSummary := r.currentSummary.map fun d => set d key value }

def parseLine (r : Reading) (rawLine : Text) : Option Reading :=
  let line := strip rawLine
  if matchesSummary line then
    some { r with
      connectionSummaries := r.connectionSummaries ++ r.currentSummary.toList
      currentSummary := some []
      inOverall := false }
  else if startsWith overallStart line then
    some { r with
      connectionSummaries := r.connectionSummaries ++ r.currentSummary.toList
      currentSummary := none
      inOverall := true }
  else
    match cutText [':'] line with
    | none => some r
    | some (key, value) =>
      if r.currentSummary.isSome ∨ r.inOverall = true then
        (cleanValue (strip value)).map fun value => store r (cleanKey (strip key)) value
      else some r

def parseFile (file : Option Text) : Option (List Metrics × Metrics) :=
  match file with
  | none => some ([], [])
  | some content =>
    ((readlines (textMode content)).foldlM parseLine ⟨[], [], none, false⟩).map fun r =>
      (r.connectionSummaries ++ r.currentSummary.toList, r.overallSummary)

end ProcessConnectionStatsFiles

/-! ## cdf -/

namespace Cdf

abbrev Metrics := Dict Text ℚ

/-- The variables of parse_file. -/
structure Reading where
  data : List Metrics
  currentGroup : Metrics
  persistentRatios : List ℚ
  nonPersistentRatios : List ℚ
  inSummary : Bool

/-- A group that is still empty is not saved. -/
def Reading.saved (r : Reading) : List Metrics :=
  if r.currentGroup = [] then r.data else r.data ++ [r.currentGroup]

def avg : Text := "Avg ".toList

def cleanKey (part : Text) : Text := lower (replace [' '] ['_'] (replace avg [] (strip part)))

def persistentRatio : Text := "persistent_ratio".toList
def nonPersistentRatio : Text := "non-persistent_ratio".toList

def store (r : Reading) (key : Text) (value : ℚ) : Reading :=
  { r with
    currentGroup := set r.currentGroup key value
    persistentRatios :=
      if key = persistentRatio then r.persistentRatios ++ [value]
      else r.persistentRatios
    nonPersistentRatios :=
      if key = nonPersistentRatio then r.nonPersistentRatios ++ [value]
      else r.nonPersistentRatios }

def parsePair (r : Reading) (line : Text) : Option Reading :=
  match part1 [':'] line with
  | none => some r
  | some value =>
    (firstFloat (strip value)).map fun x =>
      match x with
      | some x => store r (cleanKey (part0 [':'] line)) x
      | none => r

def summaryFor : Text := "Summary for Connections".toList
def overallStart : Text := "Overall Statistics".toList

/-- The for loop, which the overall statistics end. -/
def parseLines (r : Reading) : List Text → Option Reading
  | [] => some r
  | rawLine :: rest =>
    let line := strip rawLine
    if line = [] then parseLines r rest
    else if startsWith summaryFor line then
      parseLines { r with data := r.saved, currentGroup := [], inSummary := true } rest
    else if startsWith overallStart line then
      some { r with data := r.saved, inSummary := false }
    else if r.inSummary then (parsePair r line).bind fun r => parseLines r rest
    else parseLines r rest

def parseFile (file : Option Text) : Option (List Metrics × List ℚ × List ℚ) :=
  match file with
  | none => some ([], [], [])
  | some content =>
    (parseLines ⟨[], [], [], [], false⟩ (readlines (textMode content))).map fun r =>
      (if r.inSummary then r.saved else r.data, r.persistentRatios, r.nonPersistentRatios)

end Cdf

/-! ## avg and avg2 -/

/-- The numbers that re.findall finds for each of the fields. -/
def collect (fields : List Text) (text : Text) : Option (Dict Text (List ℚ)) :=
  fields.mapM fun field => ((Rows.findall field text).mapM float).map fun xs => (field, xs)

def delimiter : Text := "Overall Statistics (Averaged):".toList

namespace Avg

def fields : List Text :=
  ["Avg Non-persistent count".toList, "Avg Persistent count".toList,
    "Avg Total when both present".toList, "Avg Only persistent count".toList,
    "Avg Only non-persistent count".toList, "Avg Persistent bytes read".toList,
    "Avg Non-persistent bytes read".toList, "Avg Persistent ratio".toList,
    "Avg Non-persistent ratio".toList, "Avg Throughput Persistent".toList,
    "Avg Throughput Non-Persistent".toList, "Avg Persistent packets".toList,
    "Avg Non-Persistent packets".toList]

def parseConnectionBlock (text : Text) : Option (Dict Text (List ℚ)) := collect fields text

def persistentDuration : Text := "Total persistent duration".toList
def nonpersistentDuration : Text := "Total non-persistent duration".toList

def duration (label text : Text) : Option ℚ :=
  match Rows.search label text with
  | none => some 0
  | some group => float group

def parseOverallStatistics (text : Text) : Option (ℚ × ℚ) :=
  (duration persistentDuration text).bind fun persistent =>
    (duration nonpersistentDuration text).map fun nonpersistent =>
      (persistent, nonpersistent)

def loadFile (file : Option Text) : Option (Dict Text (List ℚ) × ℚ × ℚ) :=
  file.bind fun content =>
    (part1 delimiter (textMode content)).bind fun overallPart =>
      (parseConnectionBlock (part0 delimiter (textMode content))).bind fun connFields =>
        (parseOverallStatistics overallPart).map fun durations => (connFields, durations)

end Avg

namespace Avg2

def fieldsToAverage : List Text :=
  ["Average events when both were present".toList, "Average Persistent count".toList,
    "Average Non-Persistent count".toList, "Average Persistent Ratio".toList,
    "Average Non-Persistent Ratio".toList, "Rejected connections".toList,
    "Average Only Persistent count".toList, "Average Only Non Persistent count".toList,
    "Average persistent bytes per connection".toList,
    "Average non-persistent bytes per connection".toList,
    "Average persistent packets per connection".toList,
    "Average non-persistent packets per connection".toList,
    "Total persistent duration".toList, "Total non-persistent duration".toList,
    "Average Throughput Persistent".toList, "Average Throughput Non-Persistent".toList]

def parseOverallStatistics (text : Text) : Option (Dict Text (List ℚ)) :=
  collect fieldsToAverage text

def loadFile (file : Option Text) : Option (Dict Text (List ℚ)) :=
  file.bind fun content =>
    (part1 delimiter (textMode content)).bind parseOverallStatistics

end Avg2

end ConnectionOrder.Resultexp3
