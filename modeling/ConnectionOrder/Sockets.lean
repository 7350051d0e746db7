import Mathlib.Data.Finset.Insert
import Mathlib.Data.Finset.Erase
import Mathlib.Data.Rat.Defs
import Mathlib.Algebra.Order.Ring.Rat
import Mathlib.Logic.Function.Basic
import Mathlib.Tactic.Ring

/-!
# The kernel as the servers see it

Descriptors are raw C ints and are reused after a close, so each accepted
connection also gets a number of its own, the first one being number 1. The
number is bookkeeping: no server reads it. Doubles are exact rationals.
-/

namespace ConnectionOrder

abbrev Fd := Int

structure Timeval where
  sec : Int
  usec : Int
deriving DecidableEq

def timeDiff (start stop : Timeval) : ℚ :=
  ((stop.sec - start.sec : Int) : ℚ) + ((stop.usec - start.usec : Int) : ℚ) / 1000000

theorem timeDiff_add (a b c : Timeval) : timeDiff a b + timeDiff b c = timeDiff a c := by
  simp only [timeDiff]
  push_cast
  ring

structure Timespec where
  sec : Int
  nsec : Int
deriving DecidableEq

def secondsBetween (start stop : Timespec) : ℚ :=
  ((stop.sec - start.sec : Int) : ℚ) + ((stop.nsec - start.nsec : Int) : ℚ) / 1000000000

/-- The bytes one successful recv delivers into a buffer of this size. -/
structure Chunk (size : Nat) where
  bytes : List UInt8
  nonempty : bytes ≠ []
  bound : bytes.length ≤ size

def Chunk.length {size : Nat} (c : Chunk size) : Nat := c.bytes.length

def Chunk.head {size : Nat} (c : Chunk size) : UInt8 := c.bytes.head c.nonempty

theorem Chunk.length_pos {size : Nat} (c : Chunk size) : 0 < c.length :=
  List.length_pos_iff.mpr c.nonempty

theorem Chunk.ofNat_length_ne_zero {size : Nat} (c : Chunk size) (h : size < 2 ^ 64) :
    UInt64.ofNat c.length ≠ 0 := by
  have hpos := c.length_pos
  have hle : c.length ≤ size := c.bound
  intro hzero
  have hnat := congrArg UInt64.toNat hzero
  rw [UInt64.toNat_ofNat_of_lt' (Nat.lt_of_le_of_lt hle h), UInt64.toNat_zero] at hnat
  omega

/-- recv: data, end of file, EAGAIN or EWOULDBLOCK, any other error. -/
inductive Recv (size : Nat) where
  | data (chunk : Chunk size)
  | eof
  | again
  | error

def Recv.isError {size : Nat} : Recv size → Bool
  | .error => true
  | _ => false

structure Kernel where
  sockets : Finset Fd
  registered : Finset Fd
  conn : Fd → Nat
  accepted : Nat

namespace Kernel

def accept (k : Kernel) (fd : Fd) : Kernel where
  sockets := insert fd k.sockets
  registered := k.registered
  conn := Function.update k.conn fd (k.accepted + 1)
  accepted := k.accepted + 1

def add (k : Kernel) (fd : Fd) : Kernel := { k with registered := insert fd k.registered }

def delete (k : Kernel) (fd : Fd) : Kernel := { k with registered := k.registered.erase fd }

/-- Closing a descriptor also takes it off the interest list; a descriptor that
is not open is refused with EBADF. -/
def close (k : Kernel) (fd : Fd) : Kernel :=
  { k with sockets := k.sockets.erase fd, registered := k.registered.erase fd }

/-- ADD fails with EBADF on a closed descriptor and with EEXIST on a registered one. -/
def Addable (k : Kernel) (fd : Fd) : Prop := fd ∈ k.sockets ∧ fd ∉ k.registered

instance (k : Kernel) (fd : Fd) : Decidable (k.Addable fd) := inferInstanceAs (Decidable (_ ∧ _))

@[simp] theorem sockets_accept (k : Kernel) (fd : Fd) :
    (k.accept fd).sockets = insert fd k.sockets := rfl

@[simp] theorem registered_accept (k : Kernel) (fd : Fd) :
    (k.accept fd).registered = k.registered := rfl

@[simp] theorem conn_accept_self (k : Kernel) (fd : Fd) :
    (k.accept fd).conn fd = k.accepted + 1 := Function.update_self _ _ _

theorem conn_accept_of_ne (k : Kernel) {fd other : Fd} (h : other ≠ fd) :
    (k.accept fd).conn other = k.conn other := Function.update_of_ne h _ _

@[simp] theorem sockets_add (k : Kernel) (fd : Fd) : (k.add fd).sockets = k.sockets := rfl

@[simp] theorem registered_add (k : Kernel) (fd : Fd) :
    (k.add fd).registered = insert fd k.registered := rfl

@[simp] theorem conn_add (k : Kernel) (fd : Fd) : (k.add fd).conn = k.conn := rfl

@[simp] theorem accepted_add (k : Kernel) (fd : Fd) : (k.add fd).accepted = k.accepted := rfl

@[simp] theorem sockets_close (k : Kernel) (fd : Fd) :
    (k.close fd).sockets = k.sockets.erase fd := rfl

@[simp] theorem registered_close (k : Kernel) (fd : Fd) :
    (k.close fd).registered = k.registered.erase fd := rfl

@[simp] theorem conn_close (k : Kernel) (fd : Fd) : (k.close fd).conn = k.conn := rfl

@[simp] theorem accepted_close (k : Kernel) (fd : Fd) : (k.close fd).accepted = k.accepted := rfl

@[simp] theorem close_delete (k : Kernel) (fd : Fd) : (k.delete fd).close fd = k.close fd := by
  simp [delete, close]

end Kernel

end ConnectionOrder
