import ConnectionOrder.Rotation
import ConnectionOrder.Scan

/-!
# client_final

TCP_CONN threads that send their packets in turn, the turn being current_conn. The
thread with index `i` has the conn_id `i + 1`. The int counters are integers, and ints
as long as TCP_CONN times the number of packets is less than INT_MAX.
-/

namespace ConnectionOrder.ClientFinal

open Machine Monitor Rotation Scan

def msgSize : Nat := 50

/-- "TCP:%d | PACKET:%d\n" -/
def message (connId packetId : Int) : List Char :=
  ['T', 'C', 'P', ':'] ++ decimal connId ++
    [' ', '|', ' ', 'P', 'A', 'C', 'K', 'E', 'T', ':'] ++ decimal packetId ++ ['\n']

/-- The globals, and what was sent: a connection and the packet id of its message. -/
structure Shared where
  globalPacketId : Int
  currentConn : Int
  sent : List (Int × Int)

def initial : Shared := ⟨1, 1, []⟩

def connId {n : Nat} (i : Fin n) : Int := i.val + 1

/-- A thread keeps its loop index; the environment answers whether connect succeeds. -/
def sendPackets (n : Nat) (packets : Int) : Program (Fin n) Int Bool Shared where
  connect _ connected := if connected then some 0 else none
  again _ i _ := if i < packets then some i else none
  turn thread _ s := decide (s.currentConn = connId thread)
  act thread _ _ s :=
    { globalPacketId := s.globalPacketId + 1
      sent := s.sent ++ [(connId thread, s.globalPacketId)]
      currentConn := s.currentConn.tmod n + 1 }
  next _ i := i + 1

def Owns {n : Nat} (s : Shared) (i : Fin n) : Prop := s.currentConn = connId i

def sentBy {n : Nat} (s : Shared) (i : Fin n) : Nat := (s.sent.map Prod.fst).count (connId i)

/-- Strict rotation of the connections, with consecutive packet ids. -/
def schedule (n m : Nat) : List (Int × Int) :=
  (List.range m).map fun k => (((k % n : Nat) : Int) + 1, (k : Int) + 1)

theorem schedule_succ (n m : Nat) :
    schedule n (m + 1) = schedule n m ++ [(((m % n : Nat) : Int) + 1, (m : Int) + 1)] := by
  rw [schedule, schedule, List.range_succ, List.map_append]
  rfl

@[simp] theorem length_schedule (n m : Nat) : (schedule n m).length = m := by
  simp [schedule]

/-- The globals after `m` packets. -/
structure Shows (n : Nat) (s : Shared) (m : Nat) : Prop where
  globalPacketId : s.globalPacketId = m + 1
  currentConn : s.currentConn = ((m % n : Nat) : Int) + 1
  sent : s.sent = schedule n m

theorem shows_initial (n : Nat) : Shows n initial 0 := by
  constructor
  · rfl
  · simp [initial]
  · rfl

theorem connId_eq_iff {n : Nat} (i : Fin n) (k : Nat) : ((k : Int) + 1 = connId i) ↔ i.val = k := by
  rw [connId]
  omega

/-- The turn after position `m` by the modulo of the source. -/
theorem tmod_succ (n m : Nat) :
    (((m % n : Nat) : Int) + 1).tmod n = (((m + 1) % n : Nat) : Int) := by
  rw [Int.tmod_eq_emod_of_nonneg (by omega)]
  norm_cast
  rw [Nat.mod_add_mod]

theorem count_conns {n : Nat} (i : Fin n) (m : Nat) :
    ((schedule n m).map Prod.fst).count (connId i) = taken n m i := by
  have hconns : (schedule n m).map Prod.fst = (owners n m).map fun k : Nat => (k : Int) + 1 := by
    rw [schedule, owners, List.map_map, List.map_map]
    rfl
  have hinj : Function.Injective fun k : Nat => (k : Int) + 1 := by
    intro a b hab
    dsimp only at hab
    omega
  rw [hconns, connId, List.count_map_of_injective _ _ hinj, count_owners i.isLt]

theorem sentBy_eq {n m : Nat} {s : Shared} (h : Shows n s m) (i : Fin n) :
    sentBy s i = taken n m i := by
  rw [sentBy, h.sent]
  exact count_conns i m

section Laws

variable {n : Nat} {packets : Int} {thread : Fin n} {i i' : Int} {e : Bool}

theorem connect_eq (h : (sendPackets n packets).connect thread e = some i) : i = 0 := by
  cases e with
  | false => cases h
  | true =>
    cases h
    rfl

theorem again_eq_some (h : (sendPackets n packets).again thread i e = some i') :
    i' = i ∧ i < packets.toNat := by
  simp only [sendPackets, Option.ite_none_right_eq_some, Option.some.injEq] at h
  omega

theorem again_eq_none (h : (sendPackets n packets).again thread i e = none) (_ : 0 ≤ i) :
    packets.toNat ≤ i := by
  simp only [sendPackets, ite_eq_right_iff, reduceCtorEq, imp_false] at h
  omega

theorem owns_iff {m : Nat} {s : Shared} (h : Shows n s m) (thread : Fin n) :
    Owns s thread ↔ thread.val = m % n := by
  rw [Owns, h.currentConn, connId_eq_iff]

theorem turn_iff {m : Nat} {s : Shared} (h : Shows n s m) (thread : Fin n) (i : Int) :
    (sendPackets n packets).turn thread i s = true ↔ thread.val = m % n := by
  rw [← owns_iff h]
  exact decide_eq_true_iff

theorem act_shows {m : Nat} {s : Shared} (h : Shows n s m) (thread : Fin n) (i : Int) (e : Bool)
    (hthread : thread.val = m % n) :
    Shows n ((sendPackets n packets).act thread i e s) (m + 1) := by
  constructor
  · change s.globalPacketId + 1 = _
    rw [h.globalPacketId]
    rfl
  · change s.currentConn.tmod n + 1 = _
    rw [h.currentConn, tmod_succ]
  · change s.sent ++ [(connId thread, s.globalPacketId)] = _
    rw [h.sent, h.globalPacketId, schedule_succ, connId, hthread]

end Laws

def rotation (n : Nat) (packets : Int) : Laws (sendPackets n packets) packets.toNat where
  rank i := i
  owns := Owns
  acted := sentBy
  Shows := Shows n
  connect_rank := connect_eq
  again_go := again_eq_some
  again_leave := again_eq_none
  next_rank _ _ := rfl
  owns_iff := owns_iff
  acted_eq := sentBy_eq
  turn_iff h thread i _ := turn_iff h thread i
  act_shows h _ thread i e hthread _ := act_shows h thread i e hthread

/-! ## The range of the globals -/

theorem turn_le {n m rounds : Nat} (h : m ≤ n * rounds) : m % n + 1 ≤ max 1 n := by
  rcases Nat.eq_zero_or_pos n with rfl | hpos
  · rw [Nat.zero_mul, Nat.le_zero] at h
    rw [h]
    decide
  · have hlt := Nat.mod_lt m hpos
    omega

theorem globals_bounded {n : Nat} {packets : Int} {fails : Fin n → Bool}
    (x : Rotation.Run (sendPackets n packets) fails initial) :
    (1 ≤ x.final.shared.globalPacketId ∧
      x.final.shared.globalPacketId ≤ (n * packets.toNat : Nat) + 1) ∧
    1 ≤ x.final.shared.currentConn ∧ x.final.shared.currentConn ≤ max 1 n := by
  obtain ⟨m, h⟩ := Laws.at_final (r := rotation n packets) (shows_initial n) x
  have hbounded : m ≤ n * packets.toNat := h.bounded
  have hturn := turn_le hbounded
  rw [h.shows.globalPacketId, h.shows.currentConn]
  refine ⟨⟨?_, ?_⟩, ?_, ?_⟩ <;> omega

/-! ## All connections succeed -/

abbrev Run (n : Nat) (packets : Int) :=
  Rotation.Run (sendPackets n packets) (fun _ => false) initial

theorem sent_of_stuck {n : Nat} {packets : Int} (x : Run n packets)
    (hstuck : Stuck (sendPackets n packets) x.final) :
    x.final.shared.sent = schedule n (n * packets.toNat) := by
  obtain ⟨m, h⟩ := Laws.at_final (r := rotation n packets) (shows_initial n) x
  rcases h.stuck_cases hstuck with rfl | ⟨f, hf, _⟩
  · exact h.shows.sent
  · cases hf

/-- In every run the sends so far are the start of the rotation, nothing is stuck
before all packets are sent, and runs without spurious wake-ups end. -/
theorem sends_in_rotation (n : Nat) (packets : Int) (x : Run n packets) :
    x.final.shared.sent = schedule n x.final.shared.sent.length ∧
    x.final.shared.sent.length ≤ n * packets.toNat ∧
    (Stuck (sendPackets n packets) x.final → x.final.shared.sent = schedule n (n * packets.toNat)) ∧
    ((∀ input ∈ x.inputs, input.isSpurious = false) →
      x.inputs.length ≤ n * (5 + packets.toNat * (3 * n + 1))) := by
  obtain ⟨m, h⟩ := Laws.at_final (r := rotation n packets) (shows_initial n) x
  have hsent : x.final.shared.sent = schedule n m := h.shows.sent
  have hlength : x.final.shared.sent.length = m := by
    rw [hsent, length_schedule]
  rw [hlength]
  exact ⟨hsent, h.bounded, sent_of_stuck x,
    Laws.length_le (r := rotation n packets) (shows_initial n) x⟩

end ConnectionOrder.ClientFinal
