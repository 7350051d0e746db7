import ConnectionOrder.Exp1.RecordLoop
import ConnectionOrder.Exp1.Server6
import ConnectionOrder.Exp1.Server8

/-!
# The servers of exp1 and their records

The four programs that share the loop. server6 and server7 have no handler for SIGINT,
which ends them. server7 has the handle_connection of server_final.
-/

namespace ConnectionOrder.RecordLoop

open Machine

/-- The record of the servers that keep nothing in its buffer between two calls. -/
structure Record where
  fd : Fd
deriving DecidableEq

theorem fd_scan (stop : Nat) (l : Server6.Loop) : (Server6.scan stop l).conn.fd = l.conn.fd := by
  fun_induction Server6.scan stop l with
  | case1 | case3 => rfl
  | case2 l hlt position hsome _ hbound ih => exact ih

/-- The globals are what has been printed to the log. -/
def server6 : Server Server6.Connection (List Server6.Entry) Server6.bufferSize where
  maxConnections := 1000
  handlesSignal := false
  globals := []
  calloc := Server6.Connection.new
  fd := Server6.Connection.fd
  room conn := Server6.bufferSize - conn.bufUsed
  handleConnection conn log received :=
    ((Server6.handleConnection conn received).1,
      log ++ (Server6.handleConnection conn received).2)
  fd_calloc _ := rfl
  fd_kept conn _ received conn' h := by
    cases received with
    | data chunk =>
      cases h
      exact fd_scan _ _
    | eof | again | error => cases h

def keepOpen {size : Nat} (conn : Record) : Recv size → Option Record
  | .data _ => some conn
  | .eof | .again | .error => none

theorem keepOpen_eq_some {size : Nat} {conn conn' : Record} {received : Recv size}
    (h : keepOpen conn received = some conn') : conn' = conn := by
  cases received with
  | data chunk => exact (Option.some.inj h).symm
  | eof | again | error => cases h

/-- A tracker of `none` is an overflow of global_expected_seq. -/
def serverFinal : Server Record (Option ServerFinal.Tracker) ServerFinal.bufferSize where
  maxConnections := 10000
  handlesSignal := true
  globals := some ServerFinal.Tracker.start
  calloc := Record.mk
  fd := Record.fd
  room _ := ServerFinal.bufferSize
  handleConnection conn tracker received :=
    (keepOpen conn received, tracker.bind fun t => ServerFinal.handleConnection t received)
  fd_calloc _ := rfl
  fd_kept _ _ _ _ h := congrArg Record.fd (keepOpen_eq_some h)

def server7 : Server Record (Option ServerFinal.Tracker) ServerFinal.bufferSize :=
  { serverFinal with handlesSignal := false }

def server8 : Server Record (Option ServerFinal.Tracker) Server8.recvSize where
  maxConnections := 10000
  handlesSignal := true
  globals := some ServerFinal.Tracker.start
  calloc := Record.mk
  fd := Record.fd
  room _ := Server8.recvSize
  handleConnection conn tracker received :=
    (keepOpen conn received, tracker.bind fun t => Server8.handleConnection t received)
  fd_calloc _ := rfl
  fd_kept _ _ _ _ h := congrArg Record.fd (keepOpen_eq_some h)

/-- In every run of the four servers each record read is one that calloc returned and
that has not been freed, the open descriptors and the live records correspond, and no
index is outside the array, exactly as long as accept4 returns descriptors below
MAX_CONNECTIONS. -/
theorem records_defined_iff :
    (∀ x : Run server6, x.Always (Defined server6) ↔ x.EachStep (InBounds server6)) ∧
    (∀ x : Run server7, x.Always (Defined server7) ↔ x.EachStep (InBounds server7)) ∧
    (∀ x : Run server8, x.Always (Defined server8) ↔ x.EachStep (InBounds server8)) ∧
    ∀ x : Run serverFinal,
      x.Always (Defined serverFinal) ↔ x.EachStep (InBounds serverFinal) :=
  ⟨defined_iff_inBounds, defined_iff_inBounds, defined_iff_inBounds, defined_iff_inBounds⟩

end ConnectionOrder.RecordLoop
