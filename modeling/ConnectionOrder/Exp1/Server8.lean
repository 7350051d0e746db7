import ConnectionOrder.Exp1.Codec

/-!
# server8 copy and client9copy

The pair of programs whose messages are a packet number and a newline. The tracker is
that of server_final; recv leaves room for the NUL that is put behind what it wrote.
-/

namespace ConnectionOrder.Server8

open Lines Scan ServerFinal Codec

/-- BUFFER_SIZE - 1 -/
def recvSize : Nat := 65535

/-- "%d\n" -/
def message (packetId : Int) : List Char := decimal packetId ++ ['\n']

/-- "%d" -/
def recordFormat : List Directive := [.number true]

def packetSeq (line : List UInt8) : Option Int :=
  match sscanf recordFormat (cString line) with
  | [n] => some n
  | _ => none

def trackLine (t : Tracker) (line : List UInt8) : Option Tracker :=
  match packetSeq line with
  | none => some t
  | some n => track t n

/-- The while loop: memchr finds the end of the line that starts here. -/
def handleBuffer (t : Tracker) (s : List UInt8) : Option Tracker :=
  match h : cut newline s with
  | none => some t
  | some (line, rest) =>
    have := cut_shorter h
    (trackLine t line).bind fun t => handleBuffer t rest
termination_by s.length

def handleConnection (t : Tracker) : Recv recvSize → Option Tracker
  | .data chunk => handleBuffer t chunk.bytes
  | .eof | .again | .error => some t

theorem handleBuffer_eq (t : Tracker) (s : List UInt8) :
    handleBuffer t s = (lines newline s).foldlM trackLine t := by
  fun_induction handleBuffer t s with
  | case1 t s hcut => rw [lines_eq_cut, hcut, List.foldlM_nil]; rfl
  | case2 t s line rest hcut _ ih =>
    rw [lines_eq_cut, hcut]
    dsimp only
    rw [List.foldlM_cons]
    exact congrArg _ (funext fun t => ih t)

/-! ## Reading the messages -/

def encode (packetIds : List Int) : List UInt8 := (packetIds.flatMap message).map Char.toUInt8

theorem encode_eq (packetIds : List Int) : encode packetIds =
    terminate newline (packetIds.map fun packetId => (decimal packetId).map Char.toUInt8) := by
  rw [encode, terminate, List.flatMap_map, List.map_flatMap]
  congr
  funext packetId
  rw [message, List.map_append]
  rfl

theorem lines_encode (packetIds : List Int) : lines newline (encode packetIds) =
    packetIds.map fun packetId => (decimal packetId).map Char.toUInt8 := by
  rw [encode_eq, ← List.append_nil (terminate _ _), lines_terminate, lines_nil, List.append_nil]
  intro line hline
  obtain ⟨packetId, _, rfl⟩ := List.mem_map.mp hline
  exact newline_notMem_map fun c hc => plain_decimal c hc

theorem packetSeq_decimal {packetId : Int} (hlow : intMin ≤ packetId) (hhigh : packetId ≤ intMax) :
    packetSeq ((decimal packetId).map Char.toUInt8) = some packetId := by
  have hscan : scanNumber (decimal packetId) = some (packetId, []) := by
    have h : scanNumber (decimal packetId ++ []) = some (packetId, []) :=
      scanNumber_decimal packetId fun c hc => by cases hc
    rwa [List.append_nil] at h
  have hread : sscanf recordFormat (decimal packetId) = [packetId] := by
    rw [recordFormat, sscanf_number _ hscan, if_pos rfl, toInt_of_range hlow hhigh]
    rfl
  rw [packetSeq, cString_map fun c hc => plain_decimal c hc, hread]

theorem foldlM_trackLine (packetIds : List Int)
    (h : ∀ packetId ∈ packetIds, intMin ≤ packetId ∧ packetId ≤ intMax) (t : Tracker) :
    (packetIds.map fun packetId => (decimal packetId).map Char.toUInt8).foldlM trackLine t =
      packetIds.foldlM track t := by
  induction packetIds generalizing t with
  | nil => rfl
  | cons packetId packetIds ih =>
    obtain ⟨hfirst, hrest⟩ := List.forall_mem_cons.mp h
    rw [List.map_cons, List.foldlM_cons, List.foldlM_cons, trackLine,
      packetSeq_decimal hfirst.1 hfirst.2]
    exact congrArg _ (funext fun t => ih hrest t)

theorem handleConnection_encode {packetIds : List Int}
    (h : ∀ packetId ∈ packetIds, intMin ≤ packetId ∧ packetId ≤ intMax)
    (chunk : Chunk recvSize) (hchunk : chunk.bytes = encode packetIds) (t : Tracker) :
    handleConnection t (.data chunk) = packetIds.foldlM track t := by
  rw [handleConnection, handleBuffer_eq, hchunk, lines_encode, foldlM_trackLine packetIds h]

end ConnectionOrder.Server8
