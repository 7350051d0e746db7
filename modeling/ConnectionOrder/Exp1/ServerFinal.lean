import ConnectionOrder.Lines
import ConnectionOrder.Scan
import ConnectionOrder.Sockets
import Mathlib.Data.UInt

/-!
# The sequence tracker of server_final

The globals that handle_connection keeps about packet numbers, and what it does
with the bytes of one recv. A signed overflow of global_expected_seq is undefined
behaviour and has no result.
-/

namespace ConnectionOrder.ServerFinal

open Lines Scan

def bufferSize : Nat := 65536
def maxOutOfOrder : Nat := 1000000

def newline : UInt8 := 10

/-- global_expected_seq and the used part of out_of_order. -/
structure Tracker where
  expected : Int
  outOfOrder : List Int
  positive : 1 ≤ expected
  inRange : expected ≤ intMax
  room : outOfOrder.length ≤ maxOutOfOrder
deriving DecidableEq

def Tracker.start : Tracker := ⟨1, [], by decide, by decide, by decide⟩

/-! ## One packet number -/

/-- The for loop over the missing numbers, `i` being the next one. -/
def noteMissing (out : List Int) (i : Int) : Nat → List Int
  | 0 => out
  | n + 1 => noteMissing (if out.length < maxOutOfOrder then out ++ [i] else out) (i + 1) n

theorem length_noteMissing {out : List Int} (h : out.length ≤ maxOutOfOrder) (i : Int) (n : Nat) :
    (noteMissing out i n).length ≤ maxOutOfOrder := by
  induction n generalizing out i with
  | zero => exact h
  | succ n ih =>
    apply ih
    split
    · rw [List.length_append]
      assumption
    · exact h

def Tracker.expect (t : Tracker) (next : Int) : Option Tracker :=
  if h : 1 ≤ next ∧ next ≤ intMax then
    some { t with expected := next, positive := h.1, inRange := h.2 }
  else none

def Tracker.note (t : Tracker) (packetSeq : Int) : Tracker :=
  { t with
    outOfOrder := noteMissing t.outOfOrder t.expected (packetSeq - t.expected).toNat
    room := length_noteMissing t.room _ _ }

def track (t : Tracker) (packetSeq : Int) : Option Tracker :=
  if packetSeq = t.expected then t.expect (t.expected + 1)
  else if packetSeq < t.expected then some t
  else (t.note packetSeq).expect (packetSeq + 1)

/-! ## One buffer -/

/-- "TCP:%*d | PACKET:%d" -/
def recordFormat : List Directive :=
  ['T', 'C', 'P', ':'].map .text ++ [.number false, .blank, .text '|', .blank] ++
    ['P', 'A', 'C', 'K', 'E', 'T', ':'].map .text ++ [.number true]

/-- A C string ends at its first NUL. -/
def cString (line : List UInt8) : List Char := (line.takeWhile fun b => b ≠ 0).map Char.ofUInt8

/-- The number that sscanf assigns when it returns 1. -/
def packetSeq (line : List UInt8) : Option Int :=
  match sscanf recordFormat (cString line) with
  | [n] => some n
  | _ => none

def trackLine (t : Tracker) (line : List UInt8) : Option Tracker :=
  match packetSeq line with
  | none => some t
  | some n => track t n

/-- The while loop: memchr finds the end of the line that starts here. -/
def handleBuffer (t : Tracker) (s : List UInt8) : Option Tracker :=
  match h : cut newline s with
  | none => some t
  | some (line, rest) =>
    have := cut_shorter h
    (trackLine t line).bind fun t => handleBuffer t rest
termination_by s.length

def handleConnection (t : Tracker) : Recv bufferSize → Option Tracker
  | .data chunk => handleBuffer t chunk.bytes
  | .eof | .again | .error => some t

theorem handleBuffer_eq (t : Tracker) (s : List UInt8) :
    handleBuffer t s = (lines newline s).foldlM trackLine t := by
  fun_induction handleBuffer t s with
  | case1 t s hcut => rw [lines_eq_cut, hcut, List.foldlM_nil]; rfl
  | case2 t s line rest hcut _ ih =>
    rw [lines_eq_cut, hcut]
    dsimp only
    rw [List.foldlM_cons]
    exact congrArg _ (funext fun t => ih t)

end ConnectionOrder.ServerFinal
