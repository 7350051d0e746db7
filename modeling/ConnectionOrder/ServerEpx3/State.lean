import ConnectionOrder.ArrayQueue
import ConnectionOrder.Sockets
import Mathlib.Data.UInt

/-!
# The variables of server_epx3

Globals and the locals of main, grouped by what they are for. The event counters
and byte counters are unsigned 64-bit, the plain ints are integers.
-/

namespace ConnectionOrder.ServerEpx3

def maxEvents : Nat := 2000
def bufferSize : Nat := 1024
def maxConnections : Nat := 10000
def maxNonPersistent : Nat := 10
def packetSize : Nat := 1024
def noEventTimeout : ℚ := 180
def inactiveTimeout : ℚ := 10
def summaryInterval : Nat := 50

def statsCapacity : Nat := maxConnections / summaryInterval

/-- The character 'P', by which a persistent client identifies itself. -/
def persistentByte : UInt8 := 80

structure Connection where
  fd : Fd
  connectTime : Timeval
deriving DecidableEq

/-- The fields of ConnectionStats that are summed over connections. -/
structure Sums where
  nonPersistentCount : UInt64
  persistentCount : UInt64
  totalWhenBothPresent : UInt64
  onlyPersistentCount : UInt64
  onlyNonPersistentCount : UInt64
  perTotalBytesRead : UInt64
  nonperTotalBytesRead : UInt64
  oneconn2Duration : ℚ
  perPackets : UInt64
  nonperPackets : UInt64
deriving DecidableEq

namespace Sums

def zero : Sums := ⟨0, 0, 0, 0, 0, 0, 0, 0, 0, 0⟩

def plus (a b : Sums) : Sums where
  nonPersistentCount := a.nonPersistentCount + b.nonPersistentCount
  persistentCount := a.persistentCount + b.persistentCount
  totalWhenBothPresent := a.totalWhenBothPresent + b.totalWhenBothPresent
  onlyPersistentCount := a.onlyPersistentCount + b.onlyPersistentCount
  onlyNonPersistentCount := a.onlyNonPersistentCount + b.onlyNonPersistentCount
  perTotalBytesRead := a.perTotalBytesRead + b.perTotalBytesRead
  nonperTotalBytesRead := a.nonperTotalBytesRead + b.nonperTotalBytesRead
  oneconn2Duration := a.oneconn2Duration + b.oneconn2Duration
  perPackets := a.perPackets + b.perPackets
  nonperPackets := a.nonperPackets + b.nonperPackets

instance : Zero Sums := ⟨zero⟩

instance : Add Sums := ⟨plus⟩

instance : AddCommMonoid Sums where
  add_assoc a b c := by
    change Sums.plus (Sums.plus a b) c = Sums.plus a (Sums.plus b c)
    simp only [plus, add_assoc]
  zero_add a := by
    change Sums.plus zero a = a
    simp only [plus, zero, zero_add]
  add_zero a := by
    change Sums.plus a zero = a
    simp only [plus, zero, add_zero]
  add_comm a b := by
    change Sums.plus a b = Sums.plus b a
    simp only [plus, Sums.mk.injEq]
    simp only [add_comm, and_self]
  nsmul := nsmulRec

end Sums

/-- A record of stats_array: the sums and the four figures derived from them. -/
structure ConnectionStats extends Sums where
  persistentRatio : ℚ
  nonPersistentRatio : ℚ
  throughputMbpsper : ℚ
  throughputMbpsnonper : ℚ
deriving DecidableEq

def ConnectionStats.zero : ConnectionStats := ⟨Sums.zero, 0, 0, 0, 0⟩

structure Slots where
  persistentFd : Fd
  nonPersistentFd : Fd
  nonPersistentConnectTime : Timeval
  nonPersistentQueue : ArrayQueue Connection maxNonPersistent

/-- What is counted for the connection in the non-persistent slot. -/
structure Progress where
  nonPersistentCount : UInt64
  persistentCount : UInt64
  both : Int
  onepertotalCount : UInt64
  onenonpertotalCount : UInt64
  perBytesRead : UInt64
  nonperBytesRead : UInt64
  perPackets : UInt64
  nonperPackets : UInt64
deriving DecidableEq

def Progress.zero : Progress := ⟨0, 0, 0, 0, 0, 0, 0, 0, 0⟩

structure Totals where
  allPersistentCount : UInt64
  allNonPersistentCount : UInt64
  allOnlyPersistentCount : UInt64
  allOnlyNonPersistentCount : UInt64
  allBoth : UInt64
  allPerBytes : UInt64
  allNonperBytes : UInt64
  allPerpackets : UInt64
  allNonpacktes : UInt64
  conn2Duration : ℚ
deriving DecidableEq

def Totals.zero : Totals := ⟨0, 0, 0, 0, 0, 0, 0, 0, 0, 0⟩

structure Clocks where
  conn1Started : Bool
  conn2Started : Bool
  conn1Start : Timeval
  conn1End : Timeval
  conn2Start : Timeval
  conn2End : Timeval
  lastEventTime : Timeval
deriving DecidableEq

/-- The memory behind stats_array is unbounded here, so that a write outside the
allocated elements would be seen. -/
structure Report where
  tempStats : ConnectionStats
  statsArray : Nat → ConnectionStats
  statsCount : Nat
  connectionCount : Nat

/-- `pending` is the part of the batch in `events` that the inner loop has not
reached yet; it is empty between two calls of epoll_wait. -/
structure State where
  kernel : Kernel
  serverFd : Fd
  running : Bool
  pending : List Fd
  activeClients : Int
  rejected : Int
  pick : Fd
  slots : Slots
  progress : Progress
  totals : Totals
  clocks : Clocks
  report : Report

/-- Everything the environment may answer while one event is handled: the result
of accept, of recv, of the one EPOLL_CTL_ADD, and the first and the last time
read from the clock. Only the answers the event asks for are used. -/
structure Answers where
  accept : Option Fd
  recv : Recv bufferSize
  add : Bool
  time : Timeval
  endTime : Timeval

/-- One call of epoll_wait with what follows up to the first event (`none` is an
error of epoll_wait), the handling of the next event of the batch, or a signal. -/
inductive Input where
  | wait (batch : Option (List Fd)) (currentTime eventTime : Timeval) (add : Bool)
  | event (answers : Answers)
  | signal

def Input.add : Input → Bool
  | .wait _ _ _ add => add
  | .event answers => answers.add
  | .signal => true

/-- The state in which the loop is entered. -/
def start (serverFd : Fd) (lastEventTime : Timeval) (queue : Fin maxNonPersistent → Connection)
    (statsArray : Nat → ConnectionStats) : State where
  kernel := { sockets := ∅, registered := {serverFd}, conn := fun _ => 0, accepted := 0 }
  serverFd := serverFd
  running := true
  pending := []
  activeClients := 0
  rejected := 0
  pick := -1
  slots := {
    persistentFd := -1
    nonPersistentFd := -1
    nonPersistentConnectTime := ⟨0, 0⟩
    nonPersistentQueue := ArrayQueue.empty queue }
  progress := Progress.zero
  totals := Totals.zero
  clocks := ⟨false, false, ⟨0, 0⟩, ⟨0, 0⟩, ⟨0, 0⟩, ⟨0, 0⟩, lastEventTime⟩
  report := ⟨ConnectionStats.zero, statsArray, 0, 0⟩

end ConnectionOrder.ServerEpx3
