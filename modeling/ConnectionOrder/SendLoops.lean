import ConnectionOrder.Non
import ConnectionOrder.Per

/-!
# The send loops of both clients

Both loops move a pointer and a remaining length through one message after another.
The place in the message and the counters follow from the bytes that the kernel has
taken, however the sends were cut.
-/

namespace ConnectionOrder

open Sends

/-- The bytes taken on a connection are its whole messages and the front of the next. -/
structure Framed (size accepted messages : Nat) (c : Cursor) : Prop where
  valid : c.Valid size
  accepted : accepted = size * messages + (size - c.bytesToSend)

theorem framed_at {size accepted : Nat} (hsize : 0 < size) :
    Framed size accepted (accepted / size) (Cursor.at size accepted) :=
  ⟨Cursor.valid_at hsize accepted, Cursor.accepted_eq hsize accepted⟩

/-- After every run of per; after every run of non for the connection that is open, with
the sum over all its connections. The bytes taken are those that the sends have answered. -/
theorem framing_survives :
    (∀ (maxRuntime : Int) (x : Per.Run maxRuntime), ∃ messages : Nat,
      Framed Per.bufferSize (x.inputs.map Per.bytesTaken).sum messages x.final.cursor ∧
      x.final.totalMsgsSent = UInt64.ofNat messages ∧
      x.final.totalBytesSent = UInt64.ofNat (x.inputs.map Per.bytesTaken).sum) ∧
    ∀ (argv : List (List Char)) (x : Non.Run argv),
      (∀ c, x.final.conn = some c → ∃ taken messages : Nat,
        (Non.answered x.inputs).now = some taken ∧
        Framed Non.bufferSize taken messages c.cursor ∧ c.msgsSent = messages) ∧
      x.final.totalMsgsSent = UInt64.ofNat
        (((Non.answered x.inputs).past.map fun taken => taken / Non.bufferSize).sum +
          (Non.answered x.inputs).now.elim 0 fun taken => taken / Non.bufferSize) := by
  constructor
  · intro maxRuntime x
    obtain ⟨hcursor, hmessages, _, hbytes⟩ := (Per.always_accounted x).final
    rw [Per.accepted_run] at hcursor hmessages hbytes
    refine ⟨(x.inputs.map Per.bytesTaken).sum / Per.bufferSize, ?_, hmessages, hbytes⟩
    rw [hcursor]
    exact framed_at Per.bufferSize_pos
  · intro argv x
    have haccounted := Non.accounted_run x
    obtain ⟨hpast, hnow⟩ := Non.follows_run x
    refine ⟨fun c hc => ?_, ?_⟩
    · obtain ⟨hcursor, hmessages, _, _⟩ := haccounted.conn c hc
      rw [hc] at hnow
      refine ⟨c.accepted, c.accepted / Non.bufferSize, hnow.symm, ?_, hmessages⟩
      rw [hcursor]
      exact framed_at Non.bufferSize_pos
    · rw [haccounted.msgs, Non.current_run, Non.delivered, ← hpast, List.map_map]
      rfl

end ConnectionOrder
