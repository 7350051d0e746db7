import ConnectionOrder.ClientExp2Time
import ConnectionOrder.Scan

/-!
# The volume that clientexp2_time reports

The two threads again, with the number of bytes that each send takes. Nothing reads
that number; main computes its total from the counters.
-/

namespace ConnectionOrder.ClientExp2Time.Volume

open Machine Monitor Scan
open ClientFinal (connId)

def packetSize : Nat := 60

/-- A send that fails takes nothing. -/
structure Answer where
  client : ClientExp2Time.Answer
  accepted : Nat
  bound : accepted ≤ packetSize

structure Shared where
  client : ClientExp2Time.Shared
  accepted : Nat

def initial : Shared := ⟨ClientExp2Time.initial, 0⟩

def sendPackets : Program (Fin tcpConn) Timeval Answer Shared where
  connect i answer := ClientExp2Time.sendPackets.connect i answer.client
  again i startTime answer := ClientExp2Time.sendPackets.again i startTime answer.client
  turn i startTime s := ClientExp2Time.sendPackets.turn i startTime s.client
  act i startTime answer s :=
    { client := ClientExp2Time.sendPackets.act i startTime answer.client s.client
      accepted := s.accepted + answer.accepted }
  next i startTime := ClientExp2Time.sendPackets.next i startTime

abbrev SenderState := State (Fin tcpConn) Timeval Shared

abbrev Run :=
  Execution (step sendPackets) (fun s : SenderState => s = start initial) (Enabled sendPackets)

def first : Fin tcpConn := ⟨0, Nat.zero_lt_two⟩

def second : Fin tcpConn := ⟨1, Nat.one_lt_two⟩

/-! ## What main computes -/

def responses (s : Shared) (i : Fin tcpConn) : Int := s.client.successfulResponses i

def totalResponses (s : Shared) : Int := wrap (responses s first + responses s second)

/-- The product is an int before it is widened. -/
def totalDataBytes (s : Shared) : UInt64 := UInt64.ofInt (wrap (totalResponses s * 480))

/-- The total is that of the bytes taken, and no int overflows on the way to it. -/
structure Reported (s : Shared) : Prop where
  sum : responses s first + responses s second ≤ intMax
  product : totalResponses s * 480 ≤ intMax
  volume : totalDataBytes s = UInt64.ofNat s.accepted

/-! ## The counters -/

/-- The state after `n` sends. -/
structure Counted (n : Nat) (s : Shared) : Prop where
  total : responses s first + responses s second = n
  accepted : s.accepted ≤ packetSize * n
  turn : (Owns s.client first ∧ responses s first - responses s second = 0) ∨
    (Owns s.client second ∧ responses s first - responses s second = 1)

theorem counted_initial : Counted 0 initial := ⟨rfl, Nat.le_refl 0, .inl ⟨rfl, rfl⟩⟩

theorem responses_act (s : Shared) (i j : Fin tcpConn) (startTime : Timeval) (answer : Answer) :
    responses (sendPackets.act i startTime answer s) j =
      if j = i then responses s i + 1 else responses s j := Function.update_apply _ _ _ _

theorem Counted.act {n : Nat} {s : Shared} {i : Fin tcpConn} (h : Counted n s)
    (hturn : Owns s.client i) (startTime : Timeval) (answer : Answer) :
    Counted (n + 1) (sendPackets.act i startTime answer s) := by
  obtain ⟨htotal, haccepted, hwhose⟩ := h
  have hbytes : s.accepted + answer.accepted ≤ packetSize * (n + 1) := by
    have hbound := answer.bound
    rw [Nat.mul_succ]
    omega
  have hnext : (sendPackets.act i startTime answer s).client.currentConn =
      (connId i).tmod tcpConn + 1 := by
    rw [← hturn]
    rfl
  have hcast : ((n + 1 : Nat) : Int) = n + 1 := rfl
  have hne : first ≠ second := by decide
  rcases hwhose with ⟨howner, hequal⟩ | ⟨howner, hahead⟩
  · obtain rfl := owns_unique hturn howner
    have hone := responses_act s first first startTime answer
    have htwo := responses_act s first second startTime answer
    rw [if_pos rfl] at hone
    rw [if_neg hne.symm] at htwo
    refine ⟨by omega, hbytes, .inr ⟨?_, by omega⟩⟩
    rw [Owns, hnext]
    rfl
  · obtain rfl := owns_unique hturn howner
    have hone := responses_act s second first startTime answer
    have htwo := responses_act s second second startTime answer
    rw [if_neg hne] at hone
    rw [if_pos rfl] at htwo
    refine ⟨by omega, hbytes, .inl ⟨?_, by omega⟩⟩
    rw [Owns, hnext]
    rfl

/-- The sends of a run. -/
def sends (inputs : List (Input (Fin tcpConn) Answer)) : Nat := (inputs.map Input.acts).sum

theorem counted_step {n : Nat} {s s' : SenderState} {input : Input (Fin tcpConn) Answer}
    (hsound : Sound sendPackets s) (hmove : Move sendPackets s input s')
    (h : Counted n s.shared) : Counted (n + input.acts) s'.shared := by
  cases hmove with
  | refused | connected | leave | go | lock | enter | sleep | wake => exact h
  | @act i answer startTime hphase =>
    have hentered : ClientExp2Time.sendPackets.turn i startTime s.shared.client = true :=
      hsound.entered i startTime hphase
    exact h.act (turn_iff.mp hentered) startTime answer

theorem counted_run (x : Run) : Counted (sends x.inputs) x.final.shared := by
  have hall : Sound sendPackets x.final ∧ Counted (sends x.inputs) x.final.shared := by
    apply x.history_induction (P := fun is =>
      Sound sendPackets (run (step sendPackets) x.start is) ∧
        Counted (sends is) (run (step sendPackets) x.start is).shared)
    · rw [run_nil, x.begins]
      exact ⟨sound_start initial, counted_initial⟩
    · intro is input _ henabled ih
      have hmove := move_of_enabled henabled
      rw [run_snoc, sends, List.map_append, List.sum_append, List.map_singleton,
        List.sum_singleton]
      exact ⟨ih.1.step hmove, counted_step ih.1 hmove ih.2⟩
  exact hall.2

/-- The counters are ints as long as fewer than 2 ^ 31 messages were sent. -/
theorem responses_bounded (x : Run) (i : Fin tcpConn) :
    0 ≤ responses x.final.shared i ∧ responses x.final.shared i ≤ sends x.inputs := by
  obtain ⟨htotal, _, hwhose⟩ := counted_run x
  have hstep := hwhose.imp And.right And.right
  have hside : i = first ∨ i = second := by
    rcases Nat.lt_succ_iff_lt_or_eq.mp i.isLt with hlt | heq
    · exact .inl (Fin.ext (Nat.lt_one_iff.mp hlt))
    · exact .inr (Fin.ext heq)
  rcases hside with rfl | rfl <;> omega

/-! ## The report -/

theorem reported_iff {n : Nat} {s : Shared} (h : Counted n s) : Reported s ↔ n = 0 := by
  obtain ⟨htotal, haccepted, _⟩ := h
  rw [packetSize] at haccepted
  constructor
  · rintro ⟨hsum, hproduct, hvolume⟩
    have hwrap : totalResponses s = n := by
      rw [totalResponses, htotal]
      exact wrap_of_range (Int.natCast_nonneg n) (htotal ▸ hsum)
    rw [hwrap] at hproduct
    have hbytes : totalDataBytes s = UInt64.ofNat (n * 480) := by
      have hsmall : ((n : Int) * 480 % 2 ^ 64).toNat = n * 480 := by
        rw [intMax] at hproduct
        omega
      rw [totalDataBytes, hwrap, wrap_of_range (by omega) hproduct, UInt64.ofInt, hsmall]
    rw [intMax] at hproduct
    have heq := congrArg UInt64.toNat (hbytes.symm.trans hvolume)
    rw [UInt64.toNat_ofNat_of_lt' (by rw [UInt64.size]; omega),
      UInt64.toNat_ofNat_of_lt' (by rw [UInt64.size]; omega)] at heq
    omega
  · rintro rfl
    have hnothing : s.accepted = 0 := by omega
    have hzero : totalResponses s = 0 := by
      rw [totalResponses, htotal]
      rfl
    refine ⟨?_, ?_, ?_⟩
    · rw [htotal]
      decide
    · rw [hzero]
      decide
    · rw [totalDataBytes, hzero, hnothing]
      rfl

/-- The counters stay in step in every run; the volume is right where nothing was sent. -/
theorem volume_reported_iff (x : Run) :
    (x.Always fun s =>
      responses s.shared first - responses s.shared second = 0 ∨
        responses s.shared first - responses s.shared second = 1) ∧
    (Reported x.final.shared ↔ ∀ input ∈ x.inputs, input.acts = 0) := by
  constructor
  · intro n
    have hcounted := (counted_run (x.upTo n)).turn
    exact hcounted.imp And.right And.right
  · rw [reported_iff (counted_run x), sends, List.sum_eq_zero_iff]
    exact List.forall_mem_map

/-- Each thread sends once, in full, and leaves when its time is over. -/
def oneRound : List (Input (Fin tcpConn) Answer) :=
  let early : Answer := ⟨⟨true, ⟨0, 0⟩⟩, 60, Nat.le_refl 60⟩
  let late : Answer := ⟨⟨true, ⟨60, 0⟩⟩, 0, Nat.zero_le 60⟩
  [.connect first early, .connect second early, .again first early, .lock first, .test first,
    .act first early, .again second early, .lock second, .test second, .act second early,
    .again first late, .again second late]

def oneRoundRun : Run := ⟨_, oneRound, rfl, by with_unfolding_all decide⟩

theorem misreported_oneRound : (∀ i, oneRoundRun.final.phase i = .returned) ∧
    oneRoundRun.final.shared.accepted = 120 ∧ totalDataBytes oneRoundRun.final.shared = 960 ∧
    ¬Reported oneRoundRun.final.shared := by
  refine ⟨by with_unfolding_all decide, by with_unfolding_all decide,
    by with_unfolding_all decide, ?_⟩
  rw [reported_iff (counted_run oneRoundRun)]
  decide

end ConnectionOrder.ClientExp2Time.Volume
