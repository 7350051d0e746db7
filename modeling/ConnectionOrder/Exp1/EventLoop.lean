import ConnectionOrder.EdgeTriggered
import ConnectionOrder.Exp1.ServerFinal
import ConnectionOrder.Machine

/-!
# The event loop of server_final

main, and the network around it. The connections are numbered in the order in which
they are established, which is the order in which accept4 returns them. That calloc
returns a record and epoll_ctl registers the descriptor is assumed; the source checks
neither. The array has no bound here; RecordLoop has the bound.
-/

namespace ConnectionOrder.ServerFinal

open EdgeTriggered

def maxEvents : Nat := 1000

/-- `pending` is the part of the batch in `events` that the for loop has not reached,
`accepting` holds inside the while (1) around accept4, `connections` are the indices at
which the array has a record. A `tracker` of `none` is an overflow. -/
structure State where
  kernel : Kernel
  serverFd : Fd
  running : Bool
  pending : List Fd
  accepting : Bool
  connections : Finset Fd
  tracker : Option Tracker
  established : Nat
  listenEdge : Bool
  stream : Nat → Stream UInt8

/-- The steps of main, of the peers and of the network. -/
inductive Input where
  | wait (batch : List Fd)
  | event
  | accept (clientFd : Option Fd)
  | signal
  | establish
  | send (conn : Nat) (bytes : List UInt8)
  | finish (conn : Nat)
  | arrive (conn : Nat) (size : Nat)
  | arriveFin (conn : Nat)

def start (serverFd : Fd) : State where
  kernel := { sockets := ∅, registered := {serverFd}, conn := fun _ => 0, accepted := 0 }
  serverFd := serverFd
  running := true
  pending := []
  accepting := false
  connections := ∅
  tracker := some Tracker.start
  established := 0
  listenEdge := false
  stream := fun _ => Stream.idle

/-! ## main -/

def State.update (s : State) (conn : Nat) (f : Stream UInt8 → Stream UInt8) : State :=
  { s with stream := Function.update s.stream conn (f (s.stream conn)) }

theorem State.stream_update_self (s : State) (conn : Nat) (f : Stream UInt8 → Stream UInt8) :
    (s.update conn f).stream conn = f (s.stream conn) := Function.update_self _ _ _

theorem State.stream_update_of_ne (s : State) {conn other : Nat}
    (f : Stream UInt8 → Stream UInt8) (h : other ≠ conn) :
    (s.update conn f).stream other = s.stream other := Function.update_of_ne h _ _

/-- The batch has an event for this connection. -/
def ReportedBy (s : State) (batch : List Fd) (conn : Nat) : Prop :=
  ∃ fd ∈ batch, fd ≠ s.serverFd ∧ s.kernel.conn fd = conn

instance (s : State) (batch : List Fd) (conn : Nat) : Decidable (ReportedBy s batch conn) :=
  inferInstanceAs (Decidable (∃ fd ∈ batch, _))

def epollWait (s : State) (batch : List Fd) : State :=
  { s with
    pending := batch
    listenEdge := if s.serverFd ∈ batch then false else s.listenEdge
    stream := fun conn =>
      if ReportedBy s batch conn then (s.stream conn).report else s.stream conn }

def accept4 (s : State) : Option Fd → State
  | none => { s with accepting := false }
  | some clientFd =>
    { s with
      kernel := (s.kernel.accept clientFd).add clientFd
      connections := insert clientFd s.connections }

theorem take_ne_nil {queue : List UInt8} (h : queue ≠ []) : queue.take bufferSize ≠ [] := by
  intro hnil
  rw [List.take_eq_nil_iff] at hnil
  exact hnil.elim (by decide) h

theorem length_take_le (queue : List UInt8) : (queue.take bufferSize).length ≤ bufferSize :=
  List.length_take_le bufferSize queue

/-- recv on a nonblocking socket. -/
def recv (c : Stream UInt8) : Recv bufferSize :=
  if h : c.queue = [] then
    if c.fin then .eof else .again
  else .data ⟨c.queue.take bufferSize, take_ne_nil h, length_take_le c.queue⟩

/-- The record of the connection holds its descriptor, which indexes the array too. -/
def handleClient (s : State) (fd : Fd) : State :=
  let received := recv (s.stream (s.kernel.conn fd))
  let s := { s with tracker := s.tracker.bind fun t => handleConnection t received }
  match received with
  | .data _ => s.update (s.kernel.conn fd) (·.take bufferSize)
  | .eof | .again | .error =>
    { s.update (s.kernel.conn fd) Stream.close with kernel := s.kernel.close fd }

def handleEvent (s : State) (fd : Fd) : State :=
  if fd = s.serverFd then { s with accepting := true }
  else if fd ∈ s.connections then handleClient s fd
  else s

def step (s : State) : Input → State
  | .wait batch => epollWait s batch
  | .event =>
    match s.pending with
    | [] => s
    | fd :: rest => handleEvent { s with pending := rest } fd
  | .accept clientFd => accept4 s clientFd
  | .signal => { s with running := false }
  | .establish => { s with established := s.established + 1, listenEdge := true }
  | .send conn bytes => s.update conn (·.send bytes)
  | .finish conn => s.update conn Stream.finish
  | .arrive conn size => s.update conn (·.arrive size)
  | .arriveFin conn => s.update conn Stream.arriveFin

/-! ## What the environment may do -/

/-- Data or a FIN, or a new connection, arrived since the last event for the descriptor. -/
def Edge (s : State) (fd : Fd) : Prop :=
  if fd = s.serverFd then s.listenEdge = true
  else fd ∈ s.kernel.registered ∧ (s.stream (s.kernel.conn fd)).edge = true

instance (s : State) (fd : Fd) : Decidable (Edge s fd) :=
  inferInstanceAs (Decidable (if fd = s.serverFd then s.listenEdge = true
    else fd ∈ s.kernel.registered ∧ (s.stream (s.kernel.conn fd)).edge = true))

/-- accept4 returns a connection that waits, at a descriptor that is free. -/
def Acceptable (s : State) (clientFd : Fd) : Prop :=
  s.kernel.accepted < s.established ∧ clientFd ∉ s.kernel.sockets ∧ clientFd ≠ s.serverFd

instance (s : State) (clientFd : Fd) : Decidable (Acceptable s clientFd) :=
  inferInstanceAs (Decidable (_ ∧ _ ∧ _))

def Established (s : State) (conn : Nat) : Prop := 1 ≤ conn ∧ conn ≤ s.established

instance (s : State) (conn : Nat) : Decidable (Established s conn) :=
  inferInstanceAs (Decidable (_ ∧ _))

def Permitted (s : State) : Input → Prop
  | .wait batch => s.running = true ∧ s.accepting = false ∧ s.pending = [] ∧
      batch.length ≤ maxEvents ∧ batch.Nodup ∧ ∀ fd ∈ batch, Edge s fd
  | .event => s.accepting = false ∧ s.pending ≠ []
  | .accept clientFd => s.accepting = true ∧ ∀ fd ∈ clientFd, Acceptable s fd
  | .signal | .establish => True
  | .send conn _ | .finish conn => Established s conn ∧ (s.stream conn).ended = false
  | .arrive conn size => 0 < size ∧ size ≤ (s.stream conn).inFlight.length
  | .arriveFin conn => (s.stream conn).ended = true ∧ (s.stream conn).fin = false ∧
      (s.stream conn).inFlight = []

instance (s : State) : (input : Input) → Decidable (Permitted s input)
  | .wait _ => inferInstanceAs (Decidable (_ ∧ _ ∧ _ ∧ _ ∧ _ ∧ _))
  | .event => inferInstanceAs (Decidable (_ ∧ _))
  | .accept none => inferInstanceAs (Decidable (_ ∧ ∀ fd ∈ (none : Option Fd), _))
  | .accept (some _) => inferInstanceAs (Decidable (_ ∧ ∀ fd ∈ some _, _))
  | .signal | .establish => .isTrue trivial
  | .send _ _ | .finish _ => inferInstanceAs (Decidable (_ ∧ _))
  | .arrive _ _ => inferInstanceAs (Decidable (_ ∧ _))
  | .arriveFin _ => inferInstanceAs (Decidable (_ ∧ _ ∧ _))

def Initial (s : State) : Prop := ∃ serverFd, s = start serverFd

abbrev Run := Machine.Execution step Initial Permitted

end ConnectionOrder.ServerFinal
