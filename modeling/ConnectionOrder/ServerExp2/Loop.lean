import ConnectionOrder.Sockets
import Mathlib.Data.UInt

/-!
# The event loop of serverexp2

The globals and the locals of main, and one definition for each part of the loop.
A client event carries a pointer to the Connection record of its descriptor; such
a record lives exactly as long as the descriptor is registered, so the model
carries the descriptor itself. The int counters are integers; one event raises each by one
at most.
-/

namespace ConnectionOrder.ServerExp2

def maxEvents : Nat := 10
def bufferSize : Nat := 1024
def packetSize : Nat := 60

structure Counters where
  socket1BeforeSocket2 : Int
  socket2BeforeSocket1 : Int
  both : Int
  socket1totalCount : Int
  socket2totalCount : Int
  totalDataBytes : UInt64
  conn1Bytes : UInt64
  conn2Bytes : UInt64
  conn1Packets : UInt64
  conn2Packets : UInt64
deriving DecidableEq

def Counters.zero : Counters := ⟨0, 0, 0, 0, 0, 0, 0, 0, 0, 0⟩

structure Clocks where
  conn1Started : Bool
  conn2Started : Bool
  conn1Start : Timeval
  conn1End : Timeval
  conn2Start : Timeval
  conn2End : Timeval
deriving DecidableEq

/-- `pending` is the part of the batch in `events` that the inner loop has not
reached yet. -/
structure State where
  kernel : Kernel
  serverFd : Fd
  running : Bool
  pending : List Fd
  count : Int
  pick : Int
  activeClients : Int
  firstSocket : Fd
  secondSocket : Fd
  counters : Counters
  clocks : Clocks

/-- What the environment answers while one event is handled. The clock is read at
up to five places, in this order. -/
structure Answers where
  accept : Option Fd
  malloc : Bool
  add : Bool
  recv : Recv bufferSize
  clock : Fin 5 → Timeval

/-- One call of epoll_wait (`none` is an error), the handling of the next event of
the batch, or SIGINT. -/
inductive Input where
  | wait (batch : Option (List Fd))
  | event (answers : Answers)
  | signal

def start (serverFd : Fd) : State where
  kernel := { sockets := ∅, registered := {serverFd}, conn := fun _ => 0, accepted := 0 }
  serverFd := serverFd
  running := true
  pending := []
  count := 0
  pick := -1
  activeClients := 0
  firstSocket := -1
  secondSocket := -1
  counters := Counters.zero
  clocks := ⟨false, false, ⟨0, 0⟩, ⟨0, 0⟩, ⟨0, 0⟩, ⟨0, 0⟩⟩

/-! ## The accept branch -/

def nameSocket (s : State) (clientFd : Fd) : State :=
  if s.firstSocket = -1 then { s with firstSocket := clientFd }
  else if s.secondSocket = -1 then { s with secondSocket := clientFd }
  else s

def registerClient (s : State) (clientFd : Fd) (add : Bool) : State :=
  if add then { s with kernel := s.kernel.add clientFd }
  else { s with kernel := s.kernel.close clientFd }

/-- count is incremented before accept is called. -/
def acceptClient (s : State) (answers : Answers) : State :=
  match answers.accept with
  | none => { s with count := s.count + 1 }
  | some clientFd =>
    let s := { s with
      count := s.count + 1
      kernel := s.kernel.accept clientFd
      activeClients := s.activeClients + 1 }
    if answers.malloc then registerClient (nameSocket s clientFd) clientFd answers.add
    else { s with kernel := s.kernel.close clientFd }

/-! ## The data branch -/

/-- Lines 357 to 369. -/
def noteSocket1 (s : State) (fd : Fd) (clock : Fin 5 → Timeval) : State :=
  if fd = s.firstSocket then
    { s with
      clocks := { s.clocks with
        conn1Start := if s.clocks.conn1Started then s.clocks.conn1Start else clock 0
        conn1Started := true
        conn1End := clock 1 }
      counters := { s.counters with socket1totalCount := s.counters.socket1totalCount + 1 } }
  else s

/-- Lines 371 to 383. -/
def noteSocket2 (s : State) (fd : Fd) (clock : Fin 5 → Timeval) : State :=
  if fd = s.secondSocket then
    { s with
      clocks := { s.clocks with
        conn2Start := if s.clocks.conn2Started then s.clocks.conn2Start else clock 2
        conn2Started := true
        conn2End := clock 3 }
      counters := { s.counters with socket2totalCount := s.counters.socket2totalCount + 1 } }
  else s

def pairSocket1 (s : State) : State :=
  if s.pick = -1 then { s with pick := 1 }
  else if s.pick = 2 then
    { s with
      pick := -1
      counters := { s.counters with
        socket2BeforeSocket1 := s.counters.socket2BeforeSocket1 + 1
        both := s.counters.both + 1 } }
  else s

def pairSocket2 (s : State) : State :=
  if s.pick = -1 then { s with pick := 2 }
  else if s.pick = 1 then
    { s with
      pick := -1
      counters := { s.counters with
        socket1BeforeSocket2 := s.counters.socket1BeforeSocket2 + 1
        both := s.counters.both + 1 } }
  else s

def tallyConn1 (s : State) (received : Nat) (clock : Fin 5 → Timeval) : State :=
  { s with
    clocks := { s.clocks with
      conn1Start := if s.clocks.conn1Started then s.clocks.conn1Start else clock 4
      conn1Started := true
      conn1End := clock 4 }
    counters := { s.counters with
      conn1Bytes := s.counters.conn1Bytes + UInt64.ofNat received
      conn1Packets := s.counters.conn1Packets + UInt64.ofNat (received / packetSize) } }

def tallyConn2 (s : State) (received : Nat) (clock : Fin 5 → Timeval) : State :=
  { s with
    clocks := { s.clocks with
      conn2Start := if s.clocks.conn2Started then s.clocks.conn2Start else clock 4
      conn2Started := true
      conn2End := clock 4 }
    counters := { s.counters with
      conn2Bytes := s.counters.conn2Bytes + UInt64.ofNat received
      conn2Packets := s.counters.conn2Packets + UInt64.ofNat (received / packetSize) } }

/-- The branch taken for data while count is 2. -/
def countData (s : State) (fd : Fd) (received : Nat) (clock : Fin 5 → Timeval) : State :=
  let s := { s with counters := { s.counters with
    totalDataBytes := s.counters.totalDataBytes + UInt64.ofNat received } }
  if fd = s.firstSocket then pairSocket1 (tallyConn1 s received clock)
  else if fd = s.secondSocket then pairSocket2 (tallyConn2 s received clock)
  else s

/-- The else branch: only an end of file decrements active_clients. -/
def closeClient (s : State) (fd : Fd) (eof : Bool) : State :=
  let s := { s with activeClients := if eof then s.activeClients - 1 else s.activeClients }
  { s with
    running := if s.activeClients = 0 then false else s.running
    kernel := s.kernel.close fd }

def clientEvent (s : State) (fd : Fd) (answers : Answers) : State :=
  match answers.recv with
  | .data chunk =>
    let s := noteSocket2 (noteSocket1 s fd answers.clock) fd answers.clock
    if s.count = 2 then countData s fd chunk.length answers.clock else closeClient s fd false
  | .eof => closeClient s fd true
  | .again | .error => closeClient s fd false

def handleEvent (s : State) (eventFd : Fd) (answers : Answers) : State :=
  if eventFd = s.serverFd then acceptClient s answers else clientEvent s eventFd answers

def step (s : State) : Input → State
  | .wait batch => { s with pending := batch.getD [] }
  | .event answers =>
    match s.pending with
    | [] => s
    | eventFd :: rest => handleEvent { s with pending := rest } eventFd answers
  | .signal => { s with running := false }

end ConnectionOrder.ServerExp2
