import ConnectionOrder.Exp1.ClientFinal
import ConnectionOrder.Frames
import ConnectionOrder.Keyed
import ConnectionOrder.Memory

/-!
# client_op

The threads of client_final with messages in which the numbers stand as ints. What send
returns is not looked at.
-/

namespace ConnectionOrder.ClientOp

open Machine Monitor Rotation Scan Memory Frames Keyed
open ClientFinal (connId connId_eq_iff)

/-- The message of sprintf with its NUL, without the numbers. -/
def msg : List UInt8 :=
  ['T', 'C', 'P', ':', ' ', ' ', ' ', ' ', '|', 'P', 'A', 'C', 'K', 'E', 'T', ':', ' ', ' ', ' ',
    ' ', '\n', '\x00'].map Char.toUInt8

def packetSize : Nat := 22

/-- The bytes in front of ((int *)msg) + 1. -/
def tcpCon : Nat := 4

/-- The bytes in front of ((int *)msg) + 4. -/
def tcpPac : Nat := 16

/-- Both numbers are written anew for every packet. -/
def packet (connId packetId : Int) : List UInt8 :=
  overwrite (overwrite msg tcpCon (intBytes connId)) tcpPac (intBytes packetId)

/-- Whether connect succeeds, and how many bytes send takes: none if it fails. -/
structure Answer where
  connected : Bool
  accepted : Nat

instance : Nonempty Answer := ⟨⟨false, 0⟩⟩

/-- The globals, what was given to send on which connection, and the bytes of each socket.
The counters are ints; they do not exceed the number of packets by more than one. -/
structure Shared (n : Nat) where
  globalPacketId : Int
  currentConn : Int
  sent : List (Int × List UInt8)
  sock : Fin n → List UInt8

def initial (n : Nat) : Shared n := ⟨1, 1, [], fun _ => []⟩

/-- A thread keeps its loop index. -/
def sendPackets (n : Nat) (packets : Int) : Program (Fin n) Int Answer (Shared n) where
  connect _ e := if e.connected then some 0 else none
  again _ i _ := if i < packets then some i else none
  turn thread _ s := decide (s.currentConn = connId thread)
  act thread _ e s :=
    let msg := packet (connId thread) s.globalPacketId
    { globalPacketId := s.globalPacketId + 1
      sent := s.sent ++ [(connId thread, msg)]
      sock := Function.update s.sock thread (s.sock thread ++ msg.take e.accepted)
      currentConn := s.currentConn.tmod n + 1 }
  next _ i := i + 1

/-! ## The rotation -/

def Owns {n : Nat} (s : Shared n) (i : Fin n) : Prop := s.currentConn = connId i

def sentBy {n : Nat} (s : Shared n) (i : Fin n) : Nat := (s.sent.map Prod.fst).count (connId i)

/-- Connections and packet ids as client_final has them. -/
def schedule (n m : Nat) : List (Int × List UInt8) :=
  (ClientFinal.schedule n m).map fun p => (p.1, packet p.1 p.2)

/-- The globals after `m` packets. -/
structure Shows (n : Nat) (s : Shared n) (m : Nat) : Prop where
  globalPacketId : s.globalPacketId = m + 1
  currentConn : s.currentConn = ((m % n : Nat) : Int) + 1
  sent : s.sent = schedule n m

theorem shows_initial (n : Nat) : Shows n (initial n) 0 where
  globalPacketId := rfl
  currentConn := by rw [Nat.zero_mod]; rfl
  sent := rfl

section Laws

variable {n : Nat} {packets : Int} {thread : Fin n} {i i' : Int} {e : Answer}

/-- The loop is that of client_final. -/
theorem connect_eq (h : (sendPackets n packets).connect thread e = some i) : i = 0 :=
  @ClientFinal.connect_eq n packets thread i e.connected h

theorem again_eq_some (h : (sendPackets n packets).again thread i e = some i') :
    i' = i ∧ i < packets.toNat := @ClientFinal.again_eq_some n packets thread i i' e.connected h

theorem again_eq_none (h : (sendPackets n packets).again thread i e = none) (hpos : 0 ≤ i) :
    packets.toNat ≤ i := @ClientFinal.again_eq_none n packets thread i e.connected h hpos

variable {m : Nat} {s : Shared n}

theorem owns_iff (h : Shows n s m) (thread : Fin n) : Owns s thread ↔ thread.val = m % n := by
  rw [Owns, h.currentConn, connId_eq_iff]

theorem sentBy_eq (h : Shows n s m) (thread : Fin n) : sentBy s thread = taken n m thread := by
  have hconns : (schedule n m).map Prod.fst = (ClientFinal.schedule n m).map Prod.fst := by
    rw [schedule, List.map_map]
    rfl
  rw [sentBy, h.sent, hconns]
  exact ClientFinal.count_conns thread m

theorem act_shows (h : Shows n s m) (thread : Fin n) (i : Int) (e : Answer)
    (hthread : thread.val = m % n) :
    Shows n ((sendPackets n packets).act thread i e s) (m + 1) := by
  constructor
  · change s.globalPacketId + 1 = _
    rw [h.globalPacketId]
    rfl
  · change s.currentConn.tmod n + 1 = _
    rw [h.currentConn, ClientFinal.tmod_succ]
  · change s.sent ++ [(connId thread, packet (connId thread) s.globalPacketId)] = _
    rw [h.sent, h.globalPacketId, schedule, schedule, ClientFinal.schedule_succ, List.map_append,
      connId, hthread]
    rfl

end Laws

def rotation (n : Nat) (packets : Int) : Laws (sendPackets n packets) packets.toNat where
  rank i := i
  owns := Owns
  acted := sentBy
  Shows := Shows n
  connect_rank := connect_eq
  again_go := again_eq_some
  again_leave := again_eq_none
  next_rank _ _ := rfl
  owns_iff := owns_iff
  acted_eq := sentBy_eq
  turn_iff h thread _ _ := decide_eq_true_iff.trans (owns_iff h thread)
  act_shows h _ thread i e hthread _ := act_shows h thread i e hthread

abbrev Run (n : Nat) (packets : Int) (fails : Fin n → Bool) :=
  Rotation.Run (sendPackets n packets) fails (initial n)

/-! ## The packets, read back -/

/-- send takes the whole packet. -/
def Complete {n : Nat} (_ : State (Fin n) Int (Shared n)) : Monitor.Input (Fin n) Answer → Prop
  | .act _ e => packetSize ≤ e.accepted
  | .connect .. | .again .. | .lock _ | .test _ | .wake _ => True

def readPacket (frame : List UInt8) : Int × Int :=
  (readInt (slice frame tcpCon (tcpCon + 4)), readInt (slice frame tcpPac (tcpPac + 4)))

def received {n : Nat} (s : Shared n) (thread : Fin n) : List (Int × Int) :=
  (frames packetSize (s.sock thread)).map readPacket

theorem readPacket_packet {connId packetId : Int} (hconn : intMin ≤ connId ∧ connId ≤ intMax)
    (hpacket : intMin ≤ packetId ∧ packetId ≤ intMax) :
    readPacket (packet connId packetId) = (connId, packetId) := by
  have hcon : slice (packet connId packetId) tcpCon (tcpCon + 4) = intBytes connId := rfl
  have hpac : slice (packet connId packetId) tcpPac (tcpPac + 4) = intBytes packetId := rfl
  rw [readPacket, hcon, hpac, readInt_intBytes hconn.1 hconn.2,
    readInt_intBytes hpacket.1 hpacket.2]

/-- The packet ids of one connection among the first `m`. -/
def ownPackets {n : Nat} (m : Nat) (thread : Fin n) : List (Int × Int) :=
  (List.range (taken n m thread)).map fun k : Nat => (connId thread, (k : Int) * n + connId thread)

theorem ownPackets_succ {n : Nat} (m : Nat) (thread : Fin n) : ownPackets (m + 1) thread =
    ownPackets m thread ++ if thread.val = m % n then [(connId thread, (m : Int) + 1)] else [] := by
  rw [ownPackets, ownPackets, taken_succ thread.isLt]
  split
  · rename_i hthread
    have hid : ((m / n : Nat) : Int) * n + connId thread = m + 1 := by
      have hsplit := congrArg (fun k : Nat => (k : Int)) (Nat.div_add_mod' m n)
      rw [Nat.cast_add, Nat.cast_mul] at hsplit
      rw [connId, hthread]
      omega
    rw [hthread, taken_owner, List.range_succ, List.map_append, List.map_singleton, hid]
  · rw [Nat.add_zero, List.append_nil]

theorem select_schedule {n : Nat} (m : Nat) (thread : Fin n) :
    select (connId thread) (schedule n m) =
      (ownPackets m thread).map fun p => packet p.1 p.2 := by
  induction m with
  | zero => rw [ownPackets, taken_zero]; rfl
  | succ m ih =>
    rw [schedule, ClientFinal.schedule_succ, List.map_append, select_append, ← schedule, ih,
      ownPackets_succ, List.map_append, List.map_singleton]
    congr 1
    split
    · rename_i hthread
      have hconn : ((m % n : Nat) : Int) + 1 = connId thread := by rw [connId, hthread]
      rw [hconn]
      exact select_cons_self _ _ _
    · rename_i hthread
      have hconn : ((m % n : Nat) : Int) + 1 ≠ connId thread :=
        fun heq => hthread ((connId_eq_iff thread (m % n)).mp heq)
      exact select_cons_of_ne hconn _ _

theorem length_packet (connId packetId : Int) : (packet connId packetId).length = packetSize := by
  rw [packet, length_overwrite, length_overwrite]
  rfl

theorem mem_ownPackets {n m : Nat} {thread : Fin n} {p : Int × Int} (h : p ∈ ownPackets m thread) :
    p.1 = connId thread ∧ 1 ≤ p.2 ∧ p.2 ≤ m := by
  induction m with
  | zero =>
    rw [ownPackets, taken_zero] at h
    exact absurd h List.not_mem_nil
  | succ m ih =>
    rw [ownPackets_succ, List.mem_append] at h
    rcases h with h | h
    · obtain ⟨hconn, hlow, hhigh⟩ := ih h
      exact ⟨hconn, hlow, by omega⟩
    · split at h
      · rw [List.mem_singleton.mp h]
        dsimp only
        omega
      · exact absurd h List.not_mem_nil

/-- Sends that take whole packets leave on each socket what was given to send for it. -/
theorem sock_eq {n : Nat} {packets : Int} {fails : Fin n → Bool} (x : Run n packets fails)
    (hall : x.EachStep Complete) (thread : Fin n) : x.final.shared.sock thread =
      (select (connId thread) x.final.shared.sent).flatten := by
  refine Execution.Always.final ((x.restrict hall).invariant
    (P := fun s => s.shared.sock thread = (select (connId thread) s.shared.sent).flatten) ?_ ?_)
  · rintro s rfl
    rfl
  · rintro s input ⟨⟨henabled, _⟩, hcomplete⟩ h
    have hmove := move_of_enabled henabled
    generalize step (sendPackets n packets) s input = s' at hmove ⊢
    cases hmove with
    | refused | connected | leave | go | lock | enter | sleep | wake => exact h
    | @act other e i hphase =>
      have htake : ∀ connId packetId : Int, (packet connId packetId).take e.accepted =
          packet connId packetId :=
        fun connId packetId => List.take_of_length_le ((length_packet _ _).trans_le hcomplete)
      dsimp only [sendPackets]
      rw [select_append]
      rcases eq_or_ne other thread with rfl | hne
      · rw [Function.update_self, select_cons_self, htake, h, List.flatten_append]
        rfl
      · have hnone : select (connId thread) ([] : List (Int × List UInt8)) = [] := rfl
        have hconn : connId other ≠ connId thread := by
          intro heq
          rw [connId, connId_eq_iff] at heq
          exact hne (Fin.ext heq.symm)
        rw [Function.update_of_ne hne.symm, select_cons_of_ne hconn, h, hnone,
          List.append_nil]

theorem received_eq {n m : Nat} {s : Shared n} (h : Shows n s m) (hconns : n ≤ intMax)
    (hmax : m ≤ intMax) {thread : Fin n}
    (hsock : s.sock thread = (select (connId thread) s.sent).flatten) :
    received s thread = ownPackets m thread := by
  have hlength : ∀ frame ∈ (ownPackets m thread).map fun p => packet p.1 p.2,
      frame.length = packetSize := by
    intro frame hframe
    obtain ⟨p, _, rfl⟩ := List.mem_map.mp hframe
    exact length_packet p.1 p.2
  have hsize : 0 < packetSize := by decide
  rw [received, hsock, h.sent, select_schedule, frames_flatten hsize hlength, List.map_map]
  refine (List.map_congr_left fun p hp => ?_).trans (List.map_id _)
  obtain ⟨hconn, hlow, hhigh⟩ := mem_ownPackets hp
  have hthread := thread.isLt
  have hmin : intMin ≤ 1 := by decide
  rw [connId] at hconn
  exact readPacket_packet ⟨by omega, by omega⟩ ⟨by omega, by omega⟩

/-- However the threads run, what is given to send follows the rotation. Where the sends take
whole packets, the bytes of each connection, cut every 22, have its own number and every
n-th id, and none is missing before the last one. Without spurious wake-ups every run ends. -/
theorem packets_read_back {n : Nat} {packets : Int} (hconns : n ≤ intMax)
    (hmax : n * packets.toNat ≤ intMax) {fails : Fin n → Bool} (x : Run n packets fails) :
    (∃ m : Nat, x.final.shared.globalPacketId = m + 1 ∧
      x.final.shared.sent = schedule n m ∧
      (x.EachStep Complete →
        ∀ thread : Fin n, received x.final.shared thread = ownPackets m thread) ∧
      (Stuck (sendPackets n packets) x.final →
        m = n * packets.toNat ∨ ∃ thread : Fin n, fails thread = true ∧ m = thread)) ∧
    ((∀ input ∈ x.inputs, input.isSpurious = false) →
      x.inputs.length ≤ n * (5 + packets.toNat * (3 * n + 1))) := by
  obtain ⟨m, h⟩ := Laws.at_final (r := rotation n packets) (shows_initial n) x
  have hbound : (m : Int) ≤ intMax := le_trans (by exact_mod_cast h.bounded) hmax
  refine ⟨⟨m, h.shows.globalPacketId, h.shows.sent, fun hall thread => ?_, h.stuck_cases⟩, ?_⟩
  · exact received_eq h.shows hconns hbound (sock_eq x hall thread)
  · exact Laws.length_le (r := rotation n packets) (shows_initial n) x

/-- TCP_CONN is 2 and PACKETS is 20; the first thread sends its first packet. -/
def firstPacket : List (Monitor.Input (Fin 2) Answer) :=
  [.connect 0 ⟨true, 0⟩, .connect 1 ⟨true, 0⟩, .again 0 ⟨true, 0⟩, .lock 0, .test 0,
    .act 0 ⟨true, 22⟩]

theorem permitted_firstPacket : Along (step (sendPackets 2 20))
    (Permitted (sendPackets 2 20) fun _ => false) (Monitor.start (initial 2))
    firstPacket := by
  with_unfolding_all decide

def firstPacketRun : Run 2 20 fun _ => false :=
  ⟨Monitor.start (initial 2), firstPacket, rfl, permitted_firstPacket⟩

theorem packets_read_back_first :
    (∃ m : Nat, firstPacketRun.final.shared.globalPacketId = m + 1 ∧
      firstPacketRun.final.shared.sent = schedule 2 m ∧
      (∀ thread : Fin 2, received firstPacketRun.final.shared thread = ownPackets m thread) ∧
      (Stuck (sendPackets 2 20) firstPacketRun.final →
        m = 2 * Int.toNat 20 ∨ ∃ thread : Fin 2, false = true ∧ m = thread)) ∧
    ((∀ input ∈ firstPacketRun.inputs, input.isSpurious = false) →
      firstPacketRun.inputs.length ≤ 2 * (5 + Int.toNat 20 * (3 * 2 + 1))) := by
  have hall : firstPacketRun.EachStep Complete :=
    ⟨trivial, trivial, trivial, trivial, trivial, Nat.le_refl _, trivial⟩
  obtain ⟨⟨m, hid, hsent, hread, hstuck⟩, hlength⟩ :=
    packets_read_back (by decide) (by decide) firstPacketRun
  exact ⟨⟨m, hid, hsent, hread hall, hstuck⟩, hlength⟩

end ConnectionOrder.ClientOp
