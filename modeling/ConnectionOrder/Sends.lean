import Mathlib.Data.Nat.Basic

/-!
# Messages through partial sends

Messages of one size follow one another on a connection, and each send takes some of
what is left of the current one. The place in the message is known from the number of
bytes taken so far.
-/

namespace ConnectionOrder.Sends

/-- send: a number of bytes, EAGAIN or EWOULDBLOCK, any other error. -/
inductive Sent where
  | bytes (n : Nat)
  | again
  | error

/-- The bytes that the kernel takes. -/
def taken : Sent → Nat
  | .bytes n => n
  | .again | .error => 0

/-- The offset of the next byte in the message, and the number of bytes from there on. -/
structure Cursor where
  bufPtr : Nat
  bytesToSend : Nat
deriving DecidableEq

def Cursor.start (size : Nat) : Cursor := ⟨0, size⟩

def Cursor.move (c : Cursor) (sent : Nat) : Cursor := ⟨c.bufPtr + sent, c.bytesToSend - sent⟩

/-- The place after `accepted` bytes. -/
def Cursor.at (size accepted : Nat) : Cursor := ⟨accepted % size, size - accepted % size⟩

/-- The next send reads inside the message, and at least one byte. -/
structure Cursor.Valid (size : Nat) (c : Cursor) : Prop where
  positive : 1 ≤ c.bytesToSend
  bound : c.bytesToSend ≤ size
  pointer : c.bufPtr = size - c.bytesToSend

section Cursor

variable {size : Nat} (hsize : 0 < size)

include hsize

theorem Cursor.accepted_eq (accepted : Nat) :
    accepted = size * (accepted / size) + (size - (Cursor.at size accepted).bytesToSend) := by
  have hsplit := Nat.div_add_mod accepted size
  have hlt := Nat.mod_lt accepted hsize
  rw [Cursor.at]
  dsimp only
  omega

theorem Cursor.valid_at (accepted : Nat) : (Cursor.at size accepted).Valid size := by
  have hlt := Nat.mod_lt accepted hsize
  rw [Cursor.at]
  constructor <;> dsimp only <;> omega

/-- A send that takes the rest of the message brings in the next one. -/
theorem Cursor.at_last {accepted n : Nat} (h : n = (Cursor.at size accepted).bytesToSend) :
    Cursor.at size (accepted + n) = Cursor.start size ∧
      (accepted + n) / size = accepted / size + 1 := by
  have hsplit := Nat.div_add_mod accepted size
  have hlt := Nat.mod_lt accepted hsize
  have hwhole : accepted + n = size * (accepted / size + 1) := by
    rw [h, Cursor.at, Nat.mul_add, Nat.mul_one]
    dsimp only
    omega
  rw [hwhole, Nat.mul_div_cancel_left _ hsize, Cursor.at, Nat.mul_mod_right, Cursor.start]
  exact ⟨rfl, rfl⟩

/-- Any smaller send stays in the message. -/
theorem Cursor.at_inside {accepted n : Nat} (h : n < (Cursor.at size accepted).bytesToSend) :
    Cursor.at size (accepted + n) = (Cursor.at size accepted).move n ∧
      (accepted + n) / size = accepted / size := by
  have hsplit := Nat.div_add_mod accepted size
  have hinside : accepted % size + n < size := by
    rw [Cursor.at] at h
    dsimp only at h
    omega
  have hsum : accepted + n = size * (accepted / size) + (accepted % size + n) := by omega
  constructor
  · have hmod : (accepted + n) % size = accepted % size + n := by
      rw [hsum, Nat.mul_add_mod, Nat.mod_eq_of_lt hinside]
    rw [Cursor.at, Cursor.at, Cursor.move, hmod, Nat.sub_add_eq]
  · rw [hsum, Nat.mul_add_div hsize, Nat.div_eq_of_lt hinside, Nat.add_zero]

end Cursor

end ConnectionOrder.Sends
