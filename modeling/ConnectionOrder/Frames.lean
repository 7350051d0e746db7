import Mathlib.Data.Nat.Basic
import Mathlib.Data.UInt

/-!
# Frames of one size

A stream of frames that all have the same length is cut where they end. An int is four
bytes, the lowest one first.
-/

namespace ConnectionOrder.Frames

universe u

variable {α : Type u}

/-- The whole frames. -/
def frames (size : Nat) (s : List α) : List (List α) :=
  if 0 < size ∧ size ≤ s.length then s.take size :: frames size (s.drop size) else []
termination_by s.length
decreasing_by
  rw [List.length_drop]
  omega

theorem frames_append {size : Nat} (hsize : 0 < size) {frame : List α} (h : frame.length = size)
    (rest : List α) : frames size (frame ++ rest) = frame :: frames size rest := by
  have hlength : size ≤ (frame ++ rest).length := by
    rw [List.length_append, h]
    exact Nat.le_add_right size _
  rw [frames, if_pos ⟨hsize, hlength⟩, List.take_left' h, List.drop_left' h]

theorem frames_flatten {size : Nat} (hsize : 0 < size) {fs : List (List α)}
    (h : ∀ frame ∈ fs, frame.length = size) : frames size fs.flatten = fs := by
  induction fs with
  | nil =>
    rw [List.flatten_nil, frames, if_neg]
    rintro ⟨_, hle⟩
    exact absurd hsize (Nat.not_lt.mpr hle)
  | cons frame fs ih =>
    obtain ⟨hframe, hrest⟩ := List.forall_mem_cons.mp h
    rw [List.flatten_cons, frames_append hsize hframe, ih hrest]

/-! ## Ints -/

def natBytes (u : Nat) : List UInt8 :=
  [UInt8.ofNat u, UInt8.ofNat (u / 256), UInt8.ofNat (u / 65536), UInt8.ofNat (u / 16777216)]

/-- Two's complement in 32 bits. -/
def intBytes (n : Int) : List UInt8 := natBytes (Int32.ofInt n).toUInt32.toNat

def readNat : List UInt8 → Nat
  | [a, b, c, d] => a.toNat + 256 * b.toNat + 65536 * c.toNat + 16777216 * d.toNat
  | _ => 0

def readInt (bytes : List UInt8) : Int := (UInt32.ofNat (readNat bytes)).toInt32.toInt

theorem readNat_natBytes {u : Nat} (h : u < 4294967296) : readNat (natBytes u) = u := by
  rw [natBytes, readNat]
  simp only [UInt8.toNat_ofNat']
  omega

theorem readInt_intBytes {n : Int} (hmin : -2147483648 ≤ n) (hmax : n ≤ 2147483647) :
    readInt (intBytes n) = n := by
  rw [readInt, intBytes, readNat_natBytes (UInt32.toNat_lt _), UInt32.ofNat_toNat,
    Int32.toInt32_toUInt32]
  exact Int32.toInt_ofInt_of_le hmin (Int.lt_add_one_of_le hmax)

end ConnectionOrder.Frames
