import ConnectionOrder.Exp1.ClientFinal
import ConnectionOrder.Lockstep

/-!
# client8

The turn is the pair of current_conn and current_packet, and each packet is appended
to a log file, if that can be opened, before it is sent. usleep and the threads'
ThreadArgs leave no trace in the model. The globals are integers, and ints as long as
packets_per_conn is less than INT_MAX.
-/

namespace ConnectionOrder.Client8

open Machine Monitor Rotation Scan
open ClientFinal (connId connId_eq_iff)

/-- TCP_CONN and packets_per_conn, both ints. -/
structure Config where
  conns : Nat
  packets : Int32
  conns_le : (conns : Int) ≤ intMax

def Config.rounds (c : Config) : Nat := c.packets.toInt.toNat

def packetSize : Nat := 50

/-- "CONN:%d|PKT:%d\n" -/
def line (connectionId i : Int) : List Char :=
  ['C', 'O', 'N', 'N', ':'] ++ decimal connectionId ++ ['|', 'P', 'K', 'T', ':'] ++ decimal i ++
    ['\n']

def snprintf (size : Nat) (text : List Char) : List Char := text.take (size - 1)

/-- The globals, the lines of client_packets.log, and what each connection sent. -/
structure Shared where
  currentPacket : Int
  currentConn : Int
  log : List (List Char)
  sent : List (Int × List Char)

def initial : Shared := ⟨1, 1, [], []⟩

/-- A thread keeps its loop index. The environment answers whether connect and, in the
critical section, fopen succeed. -/
def sendPackets (c : Config) : Program (Fin c.conns) Int Bool Shared where
  connect _ connected := if connected then some 1 else none
  again _ i _ := if i ≤ c.packets.toInt then some i else none
  turn thread i s := decide ¬(s.currentConn ≠ connId thread ∨ s.currentPacket ≠ i)
  act thread i opened s :=
    let packet := snprintf packetSize (line (connId thread) i)
    let s := if opened then { s with log := s.log ++ [line (connId thread) i] } else s
    let s :=
      if s.currentConn = c.conns then
        { s with currentConn := 1, currentPacket := s.currentPacket + 1 }
      else { s with currentConn := s.currentConn + 1 }
    { s with sent := s.sent ++ [(connId thread, packet)] }
  next _ i := i + 1

def Owns {n : Nat} (s : Shared) (i : Fin n) : Prop := s.currentConn = connId i

def sentBy {n : Nat} (s : Shared) (i : Fin n) : Nat := (s.sent.map Prod.fst).count (connId i)

/-- Strict rotation of the connections, round by round. -/
def schedule (n m : Nat) : List (Int × List Char) :=
  (List.range m).map fun k =>
    (((k % n : Nat) : Int) + 1, line (((k % n : Nat) : Int) + 1) (((k / n : Nat) : Int) + 1))

theorem schedule_succ (n m : Nat) : schedule n (m + 1) = schedule n m ++
    [(((m % n : Nat) : Int) + 1,
      line (((m % n : Nat) : Int) + 1) (((m / n : Nat) : Int) + 1))] := by
  rw [schedule, schedule, List.range_succ, List.map_append]
  rfl

@[simp] theorem length_schedule (n m : Nat) : (schedule n m).length = m := by
  simp [schedule]

/-- The connections take the same turns as those of client_final. -/
theorem conns_schedule (n m : Nat) :
    (schedule n m).map Prod.fst = (ClientFinal.schedule n m).map Prod.fst := by
  rw [schedule, ClientFinal.schedule, List.map_map, List.map_map]
  rfl

/-- The globals after `m` packets. -/
structure Shows (n : Nat) (s : Shared) (m : Nat) : Prop where
  currentConn : s.currentConn = ((m % n : Nat) : Int) + 1
  currentPacket : s.currentPacket = ((m / n : Nat) : Int) + 1
  sent : s.sent = schedule n m

theorem shows_initial (n : Nat) : Shows n initial 0 := by
  constructor
  · simp [initial]
  · simp [initial]
  · rfl

theorem sentBy_eq {n m : Nat} {s : Shared} (h : Shows n s m) (i : Fin n) :
    sentBy s i = taken n m i := by
  rw [sentBy, h.sent, conns_schedule]
  exact ClientFinal.count_conns i m

/-- The packet buffer is large enough for the text of every round. -/
theorem snprintf_line {c : Config} (thread : Fin c.conns) {round : Nat} (h : round < c.rounds)
    {i : Int} (hi : i = (round : Int) + 1) :
    snprintf packetSize (line (connId thread) i) = line (connId thread) i := by
  have hconns := c.conns_le
  have hpackets := c.packets.toInt_lt
  have hthread := thread.isLt
  rw [Config.rounds] at h
  rw [intMax] at hconns
  have hconn : (decimal (connId thread)).length ≤ 11 := by
    apply length_decimal
    · rw [intMin, connId]
      omega
    · rw [intMax, connId]
      omega
  have hround : (decimal i).length ≤ 11 := by
    apply length_decimal
    · rw [intMin]
      omega
    · rw [intMax]
      omega
  rw [snprintf, List.take_of_length_le]
  simp only [line, packetSize, List.length_append, List.length_cons, List.length_nil]
  omega

/-- The effect of a critical section on everything but the log. -/
theorem act_shows {c : Config} {s : Shared} {m : Nat} (h : Shows c.conns s m)
    (hround : m / c.conns < c.rounds) {thread : Fin c.conns} {i : Int} (opened : Bool)
    (hthread : thread.val = m % c.conns) (hi : i = ((m / c.conns : Nat) : Int) + 1) :
    Shows c.conns ((sendPackets c).act thread i opened s) (m + 1) := by
  have htext := snprintf_line thread hround hi
  have hconn : connId thread = ((m % c.conns : Nat) : Int) + 1 := by
    rw [connId, hthread]
  have hlast : s.currentConn = c.conns ↔ m % c.conns + 1 = c.conns := by
    rw [h.currentConn]
    omega
  have hparts : (sendPackets c).act thread i opened s =
      { log := if opened then s.log ++ [line (connId thread) i] else s.log
        currentConn := if s.currentConn = c.conns then 1 else s.currentConn + 1
        currentPacket := if s.currentConn = c.conns then s.currentPacket + 1 else s.currentPacket
        sent := s.sent ++ [(connId thread, line (connId thread) i)] } := by
    simp only [sendPackets, htext]
    cases opened <;> simp only [if_true, if_false, Bool.false_eq_true] <;> split <;> rfl
  rw [hparts]
  rcases succ_div_mod (Nat.zero_lt_of_lt thread.isLt) m with ⟨hlt, hdiv, hmod⟩ | ⟨heq, hdiv, hmod⟩
  · rw [if_neg (fun hwrap => Nat.ne_of_lt hlt (hlast.mp hwrap)),
      if_neg (fun hwrap => Nat.ne_of_lt hlt (hlast.mp hwrap))]
    constructor
    · rw [h.currentConn, hmod]
      rfl
    · rw [h.currentPacket, hdiv]
    · rw [h.sent, schedule_succ, hconn, hi]
  · rw [if_pos (hlast.mpr heq), if_pos (hlast.mpr heq)]
    constructor
    · rw [hmod]
      rfl
    · rw [h.currentPacket, hdiv]
      rfl
    · rw [h.sent, schedule_succ, hconn, hi]

section Laws

variable {c : Config} {thread : Fin c.conns} {i i' : Int} {e : Bool}

theorem connect_eq (h : (sendPackets c).connect thread e = some i) : i - 1 = 0 := by
  cases e with
  | false => cases h
  | true =>
    cases h
    rfl

theorem again_eq_some (h : (sendPackets c).again thread i e = some i') :
    i' - 1 = i - 1 ∧ i - 1 < c.rounds := by
  simp only [sendPackets, Option.ite_none_right_eq_some, Option.some.injEq] at h
  rw [Config.rounds]
  omega

theorem again_eq_none (h : (sendPackets c).again thread i e = none) (hpos : 0 ≤ i - 1) :
    c.rounds ≤ i - 1 := by
  simp only [sendPackets, ite_eq_right_iff, reduceCtorEq, imp_false] at h
  rw [Config.rounds]
  omega

theorem next_eq (i : Int) : (sendPackets c).next thread i - 1 = i - 1 + 1 := by
  change i + 1 - 1 = i - 1 + 1
  omega

theorem turn_iff {s : Shared} {m : Nat} (h : Shows c.conns s m) (thread : Fin c.conns) (i : Int)
    (hrank : i - 1 = taken c.conns m thread) :
    (sendPackets c).turn thread i s = true ↔ thread.val = m % c.conns := by
  simp only [sendPackets, not_or, not_not, decide_eq_true_eq]
  rw [h.currentConn, h.currentPacket, connId_eq_iff]
  refine and_iff_left_of_imp fun hi => ?_
  rw [hi, taken_owner] at hrank
  omega

theorem owns_iff {n m : Nat} {s : Shared} (h : Shows n s m) (thread : Fin n) :
    Owns s thread ↔ thread.val = m % n := by
  rw [Owns, h.currentConn, connId_eq_iff]

end Laws

def rotation (c : Config) : Laws (sendPackets c) c.rounds where
  rank i := i - 1
  owns := Owns
  acted := sentBy
  Shows := Shows c.conns
  connect_rank := connect_eq
  again_go := again_eq_some
  again_leave := again_eq_none
  next_rank _ := next_eq
  owns_iff := owns_iff
  acted_eq := sentBy_eq
  turn_iff := turn_iff
  act_shows h hround _ _ e hthread hi :=
    act_shows h hround e hthread (Int.sub_eq_iff_eq_add.mp hi)

/-! ## The range of the globals -/

theorem globals_bounded {c : Config} {fails : Fin c.conns → Bool}
    (x : Rotation.Run (sendPackets c) fails initial) :
    (1 ≤ x.final.shared.currentPacket ∧ x.final.shared.currentPacket ≤ c.rounds + 1) ∧
    1 ≤ x.final.shared.currentConn ∧ x.final.shared.currentConn ≤ max 1 c.conns := by
  obtain ⟨m, h⟩ := Laws.at_final (r := rotation c) (shows_initial c.conns) x
  have hrounds : m / c.conns ≤ c.rounds := Nat.div_le_of_le_mul h.bounded
  have hfront := Int.natCast_nonneg (m / c.conns)
  have hturn := ClientFinal.turn_le h.bounded
  rw [h.shows.currentPacket, h.shows.currentConn]
  refine ⟨⟨?_, ?_⟩, ?_, ?_⟩ <;> omega

/-! ## All connections succeed -/

abbrev Run (c : Config) := Rotation.Run (sendPackets c) (fun _ => false) initial

/-- What fopen answered in the critical sections. -/
def fopens {c : Config} (_ : State (Fin c.conns) Int Shared) : Input (Fin c.conns) Bool → List Bool
  | .act _ opened => [opened]
  | .connect .. | .again .. | .lock _ | .test _ | .wake _ => []

/-- The texts whose flag is set. -/
def keep (flags : List Bool) (texts : List (List Char)) : List (List Char) :=
  (flags.zip texts).filterMap fun entry => if entry.1 then some entry.2 else none

theorem keep_snoc {flags : List Bool} {texts : List (List Char)}
    (h : flags.length = texts.length) (flag : Bool) (text : List Char) :
    keep (flags ++ [flag]) (texts ++ [text]) = keep flags texts ++ if flag then [text] else [] := by
  rw [keep, keep, List.zip_append h, List.filterMap_append]
  cases flag <;> rfl

theorem log_act {c : Config} {s : State (Fin c.conns) Int Shared} {m : Nat}
    (h : (rotation c).At (fun _ => false) s m) {thread : Fin c.conns} {i : Int} (opened : Bool)
    (hphase : s.phase thread = .entered i) :
    ∃ text, ((sendPackets c).act thread i opened s.shared).log =
        s.shared.log ++ (if opened then [text] else []) ∧
      ((sendPackets c).act thread i opened s.shared).sent.map Prod.snd =
        s.shared.sent.map Prod.snd ++ [text] := by
  obtain ⟨_, hrank, hlt⟩ := h.owner hphase
  have htext := snprintf_line thread hlt (Int.sub_eq_iff_eq_add.mp hrank)
  refine ⟨line (connId thread) i, ?_, ?_⟩
  · simp only [sendPackets]
    cases opened <;> simp only [if_true, if_false, Bool.false_eq_true, List.append_nil] <;>
      split <;> rfl
  · simp only [sendPackets, htext]
    cases opened <;> simp only [if_true, if_false, Bool.false_eq_true] <;>
      split <;> simp only [List.map_append, List.map_cons, List.map_nil]

/-- The log file holds the packets whose fopen succeeded, in the order they were sent. -/
theorem log_eq (c : Config) (x : Run c) :
    (x.observed fopens).length = x.final.shared.sent.length ∧
    x.final.shared.log = keep (x.observed fopens) (x.final.shared.sent.map Prod.snd) := by
  apply x.history_induction (P := fun is =>
    (collect (step (sendPackets c)) fopens x.start is).length =
      (run (step (sendPackets c)) x.start is).shared.sent.length ∧
    (run (step (sendPackets c)) x.start is).shared.log =
      keep (collect (step (sendPackets c)) fopens x.start is)
        ((run (step (sendPackets c)) x.start is).shared.sent.map Prod.snd))
  · rw [x.begins]
    exact ⟨rfl, rfl⟩
  · rintro is input halong ⟨henabled, _⟩ ⟨hlength, hlog⟩
    obtain ⟨m, h⟩ := Laws.at_final (r := rotation c) (shows_initial c.conns)
      ⟨x.start, is, x.begins, halong⟩
    have hat : (rotation c).At (fun _ => false) (run (step (sendPackets c)) x.start is) m := h
    have hmove := move_of_enabled henabled
    rw [collect_snoc, run_snoc]
    generalize hs : run (step (sendPackets c)) x.start is = s at *
    generalize step (sendPackets c) s input = s' at hmove ⊢
    cases hmove with
    | refused | connected | leave | go | lock | enter | sleep | wake =>
      rw [fopens, List.append_nil]
      exact ⟨hlength, hlog⟩
    | @act thread opened i hphase =>
      obtain ⟨text, hnewLog, hnewSent⟩ := log_act hat opened hphase
      have hnewLength := congrArg List.length hnewSent
      rw [List.length_map, List.length_append, List.length_map] at hnewLength
      rw [fopens]
      constructor
      · rw [List.length_append, hlength]
        exact hnewLength.symm
      · change ((sendPackets c).act thread i opened s.shared).log = keep _
          (((sendPackets c).act thread i opened s.shared).sent.map Prod.snd)
        rw [hnewSent, keep_snoc (by rw [hlength, List.length_map]), ← hlog]
        exact hnewLog

theorem honest_final {c : Config} {fails : Fin c.conns → Bool} {packets : Int}
    (input : Input (Fin c.conns) Bool) (h : Honest (sendPackets c) fails input) :
    Honest (ClientFinal.sendPackets c.conns packets) fails input := by
  cases input with
  | connect i e => cases e <;> simpa [Honest, sendPackets, ClientFinal.sendPackets] using h
  | again | lock | test | act | wake => trivial

/-- Every run sends the rotation and logs what it sends, is a run of client_final under
the same choices of the scheduler, and is not stuck before all packets are sent. -/
theorem refines_rotation (c : Config) (x : Run c) :
    x.final.shared.sent = schedule c.conns x.final.shared.sent.length ∧
    x.final.shared.sent.length ≤ c.conns * c.rounds ∧
    (Stuck (sendPackets c) x.final →
      x.final.shared.sent = schedule c.conns (c.conns * c.rounds)) ∧
    x.final.shared.log = keep (x.observed fopens) (x.final.shared.sent.map Prod.snd) ∧
    (∃ y : ClientFinal.Run c.conns c.packets.toInt, y.inputs = x.inputs ∧
      y.final.shared.sent.map Prod.fst = x.final.shared.sent.map Prod.fst) ∧
    (∀ y : ClientFinal.Run c.conns c.packets.toInt, Stuck (sendPackets c) x.final →
      Stuck (ClientFinal.sendPackets c.conns c.packets.toInt) y.final →
      y.final.shared.sent.map Prod.fst = x.final.shared.sent.map Prod.fst) ∧
    ((∀ input ∈ x.inputs, input.isSpurious = false) →
      x.inputs.length ≤ c.conns * (5 + c.rounds * (3 * c.conns + 1))) := by
  obtain ⟨m, h⟩ := Laws.at_final (r := rotation c) (shows_initial c.conns) x
  have hsent : x.final.shared.sent = schedule c.conns m := h.shows.sent
  have hlength : x.final.shared.sent.length = m := by
    rw [hsent, length_schedule]
  have hall : Stuck (sendPackets c) x.final → m = c.conns * c.rounds := by
    intro hstuck
    rcases h.stuck_cases hstuck with hdone | ⟨f, hf, _⟩
    · exact hdone
    · cases hf
  refine ⟨?_, ?_, ?_, (log_eq c x).2, ?_, ?_, ?_⟩
  · rw [hlength]
    exact hsent
  · rw [hlength]
    exact h.bounded
  · intro hstuck
    rw [hsent, hall hstuck]
  · obtain ⟨y, hinputs, m', htogether⟩ := (rotation c).exists_lockstep
      (ClientFinal.rotation c.conns c.packets.toInt) (shows_initial c.conns)
      (ClientFinal.shows_initial c.conns) honest_final x
    refine ⟨y, hinputs, ?_⟩
    rw [htogether.left.shows.sent, htogether.right.shows.sent, conns_schedule]
  · intro y hstuck hother
    rw [hsent, hall hstuck, conns_schedule, ClientFinal.sent_of_stuck y hother]
    rfl
  · exact Laws.length_le (r := rotation c) (shows_initial c.conns) x

end ConnectionOrder.Client8
