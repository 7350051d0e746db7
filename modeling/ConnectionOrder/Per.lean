import ConnectionOrder.Machine
import ConnectionOrder.Scan
import ConnectionOrder.Sends
import ConnectionOrder.Sockets
import Mathlib.Algebra.Order.Ring.Cast
import Mathlib.Data.UInt

/-!
# The persistent client

The send loop of per. `accepted` counts the bytes that the kernel has taken; no branch
of the program reads it, and in a run it is the sum of what the sends have answered.
-/

namespace ConnectionOrder.Per

open Machine Scan Sends

def bufferSize : Nat := 1024

def defaultRuntime : Int := 3600

/-- argv[0] is the name of the program. -/
def maxRuntime (argv : List (List Char)) : Int :=
  match argv[2]? with
  | none => defaultRuntime
  | some arg => if atoi arg ≤ 0 then defaultRuntime else atoi arg

structure State where
  running : Bool
  broken : Bool
  start : Timespec
  elapsed : ℚ
  cursor : Cursor
  totalMsgsSent : UInt64
  totalPacketsSent : UInt64
  totalBytesSent : UInt64
  accepted : Nat

def initial (start : Timespec) : State where
  running := true
  broken := false
  start := start
  elapsed := 0
  cursor := Cursor.start bufferSize
  totalMsgsSent := 0
  totalPacketsSent := 0
  totalBytesSent := 0
  accepted := 0

/-- The loop condition; `broken` is set by the break. -/
def Looping (maxRuntime : Int) (s : State) : Prop :=
  s.running = true ∧ s.broken = false ∧ s.elapsed < maxRuntime

instance (maxRuntime : Int) (s : State) : Decidable (Looping maxRuntime s) :=
  inferInstanceAs (Decidable (_ ∧ _ ∧ _))

def countSent (s : State) (sent : Nat) : State :=
  let s := { s with
    totalBytesSent := s.totalBytesSent + UInt64.ofNat sent
    cursor := s.cursor.move sent
    accepted := s.accepted + sent }
  if s.cursor.bytesToSend = 0 then
    { s with
      totalMsgsSent := s.totalMsgsSent + 1
      totalPacketsSent := s.totalPacketsSent + 1
      cursor := Cursor.start bufferSize }
  else s

/-- The clock is read only while total_msgs_sent is a multiple of 100. -/
def updateElapsed (s : State) (now : Timespec) : State :=
  if s.totalMsgsSent % 100 = 0 then { s with elapsed := secondsBetween s.start now } else s

/-- EAGAIN goes back to the loop condition without a look at the clock. -/
def turn (s : State) (sent : Sent) (now : Timespec) : State :=
  match sent with
  | .bytes n => updateElapsed (if 0 < n then countSent s n else s) now
  | .again => s
  | .error => { s with broken := true }

inductive Input where
  | turn (sent : Sent) (now : Timespec)
  | signal

def step (s : State) : Input → State
  | .turn sent now => turn s sent now
  | .signal => { s with running := false }

/-- send takes no more than it is given. -/
def Fits (s : State) : Sent → Prop
  | .bytes n => n ≤ s.cursor.bytesToSend
  | .again | .error => True

instance (s : State) : (sent : Sent) → Decidable (Fits s sent)
  | .bytes _ => inferInstanceAs (Decidable (_ ≤ _))
  | .again | .error => .isTrue trivial

def Permitted (maxRuntime : Int) (s : State) : Input → Prop
  | .turn sent _ => Looping maxRuntime s ∧ Fits s sent
  | .signal => True

abbrev Run (maxRuntime : Int) :=
  Execution step (fun s => ∃ start, s = initial start) (Permitted maxRuntime)

/-! ## What the counters hold -/

structure Accounted (s : State) : Prop where
  cursor : s.cursor = Cursor.at bufferSize s.accepted
  messages : s.totalMsgsSent = UInt64.ofNat (s.accepted / bufferSize)
  packets : s.totalPacketsSent = UInt64.ofNat (s.accepted / bufferSize)
  bytes : s.totalBytesSent = UInt64.ofNat s.accepted

theorem accounted_initial (start : Timespec) : Accounted (initial start) := by
  have hnone : (0 : UInt64) = UInt64.ofNat (0 / bufferSize) := by decide
  exact ⟨rfl, hnone, hnone, rfl⟩

theorem bufferSize_pos : 0 < bufferSize := by decide

theorem accounted_countSent {s : State} {n : Nat} (h : Accounted s)
    (hfits : n ≤ s.cursor.bytesToSend) : Accounted (countSent s n) := by
  obtain ⟨hcursor, hmessages, hpackets, hbytes⟩ := h
  have hbytes' : s.totalBytesSent + UInt64.ofNat n = UInt64.ofNat (s.accepted + n) := by
    rw [hbytes, UInt64.ofNat_add]
  rw [countSent]
  dsimp only
  rw [Cursor.move]
  dsimp only
  rw [hcursor] at hfits ⊢
  cases eq_or_lt_of_le hfits with
  | inl hlast =>
    obtain ⟨hstart, hdiv⟩ := Cursor.at_last bufferSize_pos hlast
    rw [if_pos (by omega)]
    refine ⟨hstart.symm, ?_, ?_, hbytes'⟩
    · dsimp only
      rw [hdiv, UInt64.ofNat_add, hmessages]
      rfl
    · dsimp only
      rw [hdiv, UInt64.ofNat_add, hpackets]
      rfl
  | inr hinside =>
    obtain ⟨hmove, hdiv⟩ := Cursor.at_inside bufferSize_pos hinside
    rw [if_neg (by omega)]
    refine ⟨hmove.symm, ?_, ?_, hbytes'⟩
    · dsimp only
      rw [hdiv, hmessages]
    · dsimp only
      rw [hdiv, hpackets]

theorem Accounted.updateElapsed {s : State} (h : Accounted s) (now : Timespec) :
    Accounted (updateElapsed s now) := by
  rw [Per.updateElapsed]
  split
  · exact ⟨h.cursor, h.messages, h.packets, h.bytes⟩
  · exact h

theorem accounted_turn {s : State} {sent : Sent} (now : Timespec) (h : Accounted s)
    (hfits : Fits s sent) : Accounted (turn s sent now) := by
  cases sent with
  | again => exact h
  | error => exact ⟨h.cursor, h.messages, h.packets, h.bytes⟩
  | bytes n =>
    have hcounted : Accounted (if 0 < n then countSent s n else s) := by
      split
      · exact accounted_countSent h hfits
      · exact h
    exact hcounted.updateElapsed now

theorem always_accounted {maxRuntime : Int} (x : Run maxRuntime) : x.Always Accounted := by
  refine x.invariant ?_ ?_
  · rintro s ⟨start, rfl⟩
    exact accounted_initial start
  · intro s i hp h
    cases i with
    | turn sent now => exact accounted_turn now h hp.2
    | signal => exact ⟨h.cursor, h.messages, h.packets, h.bytes⟩

theorem accepted_countSent (s : State) (n : Nat) :
    (countSent s n).accepted = s.accepted + n := by
  rw [countSent]
  dsimp only
  split <;> rfl

theorem accepted_turn (s : State) (sent : Sent) (now : Timespec) :
    (turn s sent now).accepted = s.accepted + taken sent := by
  have helapsed : ∀ t, (updateElapsed t now).accepted = t.accepted := by
    intro t
    rw [updateElapsed]
    split <;> rfl
  cases sent with
  | again | error => rfl
  | bytes n =>
    rw [turn, helapsed]
    split
    · exact accepted_countSent s n
    · rename_i hn
      rw [taken, Nat.eq_zero_of_not_pos hn, Nat.add_zero]

def bytesTaken : Input → Nat
  | .turn sent _ => taken sent
  | .signal => 0

theorem accepted_run {maxRuntime : Int} (x : Run maxRuntime) :
    x.final.accepted = (x.inputs.map bytesTaken).sum := by
  apply x.history_induction
    (P := fun is => (run step x.start is).accepted = (is.map bytesTaken).sum)
  · obtain ⟨start, hstart⟩ := x.begins
    rw [run_nil, hstart]
    rfl
  · intro is i _ _ ih
    rw [run_snoc, List.map_append, List.sum_append, List.map_singleton, List.sum_singleton, ← ih]
    cases i with
    | turn sent now => exact accepted_turn _ sent now
    | signal => rfl

/-! ## The time limit -/

/-- What send and the clock answer on the turns of a loop that no signal ends. -/
structure Environment where
  sent : Nat → Sent
  now : Nat → Timespec

def stateAt (maxRuntime : Int) (start : Timespec) (e : Environment) : Nat → State
  | 0 => initial start
  | n + 1 =>
    let s := stateAt maxRuntime start e n
    if Looping maxRuntime s then turn s (e.sent n) (e.now n) else s

def Environment.Fits (maxRuntime : Int) (start : Timespec) (e : Environment) : Prop :=
  ∀ n, Per.Fits (stateAt maxRuntime start e n) (e.sent n)

def Terminates (maxRuntime : Int) (start : Timespec) (e : Environment) : Prop :=
  ∃ n, ¬Looping maxRuntime (stateAt maxRuntime start e n)

/-- The bytes taken on the first turns. -/
def Environment.accepted (e : Environment) : Nat → Nat
  | 0 => 0
  | n + 1 => e.accepted n + (match e.sent n with
    | .bytes k => k
    | .again | .error => 0)

/-- An error, or a send that is not refused with EAGAIN, after the limit and with a
multiple of 100 messages sent. -/
def Environment.Notices (maxRuntime : Int) (start : Timespec) (e : Environment) (n : Nat) : Prop :=
  match e.sent n with
  | .error => True
  | .again => False
  | .bytes _ => UInt64.ofNat (e.accepted (n + 1) / bufferSize) % 100 = 0 ∧
      maxRuntime ≤ secondsBetween start (e.now n)

theorem countSent_rest (s : State) (n : Nat) :
    (countSent s n).running = s.running ∧ (countSent s n).broken = s.broken ∧
    (countSent s n).start = s.start ∧ (countSent s n).elapsed = s.elapsed ∧
    (countSent s n).accepted = s.accepted + n := by
  rw [countSent]
  dsimp only
  split <;> exact ⟨rfl, rfl, rfl, rfl, rfl⟩

theorem updateElapsed_effect (s : State) (now : Timespec) :
    (updateElapsed s now).running = s.running ∧ (updateElapsed s now).broken = s.broken ∧
    (updateElapsed s now).start = s.start ∧ (updateElapsed s now).accepted = s.accepted ∧
    (updateElapsed s now).elapsed =
      if (updateElapsed s now).totalMsgsSent % 100 = 0 then secondsBetween s.start now
      else s.elapsed := by
  rw [updateElapsed]
  split
  · exact ⟨rfl, rfl, rfl, rfl, rfl⟩
  · exact ⟨rfl, rfl, rfl, rfl, rfl⟩

theorem turn_bytes (s : State) (n : Nat) (now : Timespec) :
    (turn s (.bytes n) now).running = s.running ∧ (turn s (.bytes n) now).broken = s.broken ∧
    (turn s (.bytes n) now).start = s.start ∧
    (turn s (.bytes n) now).accepted = s.accepted + n ∧
    (turn s (.bytes n) now).elapsed =
      if (turn s (.bytes n) now).totalMsgsSent % 100 = 0 then secondsBetween s.start now
      else s.elapsed := by
  have hupdate := updateElapsed_effect (if 0 < n then countSent s n else s) now
  have hcount : (if 0 < n then countSent s n else s).running = s.running ∧
      (if 0 < n then countSent s n else s).broken = s.broken ∧
      (if 0 < n then countSent s n else s).start = s.start ∧
      (if 0 < n then countSent s n else s).elapsed = s.elapsed ∧
      (if 0 < n then countSent s n else s).accepted = s.accepted + n := by
    split
    · exact countSent_rest s n
    · have hzero : n = 0 := by omega
      rw [hzero]
      exact ⟨rfl, rfl, rfl, rfl, rfl⟩
  obtain ⟨hrunning, hbroken, hstart, helapsed, haccepted⟩ := hcount
  rw [hrunning, hbroken, hstart, helapsed, haccepted] at hupdate
  exact hupdate

section Limit

variable {maxRuntime : Int} {start : Timespec} {e : Environment}
  (hfits : e.Fits maxRuntime start)
include hfits

/-- While the loop runs, its counters follow the answers of send. -/
theorem stateAt_follows {n : Nat}
    (h : ∀ m < n, Looping maxRuntime (stateAt maxRuntime start e m)) :
    Accounted (stateAt maxRuntime start e n) ∧ (stateAt maxRuntime start e n).start = start ∧
      (stateAt maxRuntime start e n).accepted = e.accepted n := by
  induction n with
  | zero => exact ⟨accounted_initial start, rfl, rfl⟩
  | succ n ih =>
    obtain ⟨haccounted, hstart, haccepted⟩ := ih fun m hm => h m (Nat.lt_succ_of_lt hm)
    have hfit := hfits n
    rw [stateAt, Environment.accepted, if_pos (h n (Nat.lt_succ_self n))]
    refine ⟨accounted_turn (e.now n) haccounted hfit, ?_⟩
    cases e.sent n with
    | again | error => exact ⟨hstart, haccepted⟩
    | bytes k =>
      obtain ⟨_, _, hstart', haccepted', _⟩ := turn_bytes (stateAt maxRuntime start e n) k (e.now n)
      exact ⟨hstart'.trans hstart, by rw [haccepted', haccepted]⟩

/-- The loop ends on the turn that notices the limit, and on no other. -/
theorem looping_succ_iff {n : Nat}
    (h : ∀ m ≤ n, Looping maxRuntime (stateAt maxRuntime start e m)) :
    Looping maxRuntime (stateAt maxRuntime start e (n + 1)) ↔
      ¬e.Notices maxRuntime start n := by
  have hlooping := h n (Nat.le_refl n)
  have hnext := stateAt_follows hfits (n := n + 1) fun m hm => h m (Nat.le_of_lt_succ hm)
  have hnow := stateAt_follows hfits (n := n) fun m hm => h m (Nat.le_of_lt hm)
  have hstep : stateAt maxRuntime start e (n + 1) =
      turn (stateAt maxRuntime start e n) (e.sent n) (e.now n) := by
    rw [stateAt]
    exact if_pos hlooping
  have hmessages := hnext.1.messages
  rw [hnext.2.2] at hmessages
  rw [Environment.Notices]
  rw [hstep] at hmessages ⊢
  cases hsent : e.sent n with
  | again => exact iff_of_true hlooping id
  | error =>
    refine iff_of_false (fun hrun => ?_) fun hnot => hnot trivial
    have hbroken : true = false := hrun.2.1
    cases hbroken
  | bytes k =>
    rw [hsent] at hmessages
    obtain ⟨hrunning, hbroken, _, _, helapsed⟩ :=
      turn_bytes (stateAt maxRuntime start e n) k (e.now n)
    rw [hmessages, hnow.2.1] at helapsed
    rw [Looping, hrunning, hbroken, helapsed]
    dsimp only
    split
    · rename_i hround
      rw [not_and, not_le]
      exact ⟨fun hrun _ => hrun.2.2, fun hlimit => ⟨hlooping.1, hlooping.2.1, hlimit hround⟩⟩
    · rename_i hround
      exact iff_of_true hlooping fun hboth => hround hboth.1

theorem terminates_iff_notices (hlimit : 0 < maxRuntime) :
    Terminates maxRuntime start e ↔ ∃ n, e.Notices maxRuntime start n := by
  constructor
  · intro hterminates
    by_contra hnone
    have hall : ∀ n, ∀ m ≤ n, Looping maxRuntime (stateAt maxRuntime start e m) := by
      intro n
      induction n with
      | zero =>
        intro m hm
        rw [Nat.le_zero.mp hm]
        have hpos : (0 : ℚ) < maxRuntime := Int.cast_pos.mpr hlimit
        exact ⟨rfl, rfl, hpos⟩
      | succ n ih =>
        intro m hm
        cases Nat.lt_or_ge m (n + 1) with
        | inl hlt => exact ih m (Nat.le_of_lt_succ hlt)
        | inr hge =>
          rw [Nat.le_antisymm hm hge, looping_succ_iff hfits ih]
          exact fun hnotices => hnone ⟨n, hnotices⟩
    obtain ⟨n, hstopped⟩ := hterminates
    exact hstopped (hall n n (Nat.le_refl n))
  · rintro ⟨n, hnotices⟩
    by_contra hnever
    have hall : ∀ m, Looping maxRuntime (stateAt maxRuntime start e m) :=
      fun m => not_not.mp fun hstopped => hnever ⟨m, hstopped⟩
    exact (looping_succ_iff hfits fun m _ => hall m).mp (hall (n + 1)) hnotices

end Limit

theorem maxRuntime_pos (argv : List (List Char)) : 0 < maxRuntime argv := by
  rw [maxRuntime]
  split
  · decide
  · split
    · decide
    · omega

/-- The send loop ends exactly where some turn notices the limit. -/
theorem limit_enforced_iff (argv : List (List Char)) (start : Timespec) (e : Environment)
    (hfits : e.Fits (maxRuntime argv) start) :
    Terminates (maxRuntime argv) start e ↔ ∃ n, e.Notices (maxRuntime argv) start n :=
  terminates_iff_notices hfits (maxRuntime_pos argv)

/-- A clock that shows one second more on each turn. -/
def ticking (n : Nat) : Timespec := ⟨n, 0⟩

theorem seconds_ticking (n : Nat) : secondsBetween ⟨0, 0⟩ (ticking n) = n := by
  simp [secondsBetween, ticking]

theorem limit_ticking :
    ((maxRuntime [] : Int) : ℚ) ≤ secondsBetween ⟨0, 0⟩ (ticking 3600) := by
  rw [seconds_ticking]
  exact le_of_eq (Int.cast_natCast 3600)

/-- Sends that take nothing and are not refused. -/
def idle : Environment := ⟨fun _ => .bytes 0, ticking⟩

theorem limit_enforced_idle : Terminates (maxRuntime []) ⟨0, 0⟩ idle := by
  have haccepted : ∀ n, idle.accepted n = 0 := by
    intro n
    induction n with
    | zero => rfl
    | succ n ih => rw [Environment.accepted, ih]; rfl
  refine (limit_enforced_iff [] ⟨0, 0⟩ idle fun n => Nat.zero_le _).mpr ⟨3600, ?_⟩
  refine ⟨?_, limit_ticking⟩
  rw [haccepted]
  decide

/-- A peer that has stopped reading. -/
def stalled : Environment := ⟨fun _ => .again, ticking⟩

/-- The clock passes every limit, and the loop goes on. -/
theorem endless_stalled : stalled.Fits (maxRuntime []) ⟨0, 0⟩ ∧
    (∀ n, secondsBetween ⟨0, 0⟩ (stalled.now n) ≤ secondsBetween ⟨0, 0⟩ (stalled.now (n + 1))) ∧
    ((maxRuntime [] : Int) : ℚ) ≤ secondsBetween ⟨0, 0⟩ (stalled.now 3600) ∧
    ¬Terminates (maxRuntime []) ⟨0, 0⟩ stalled := by
  have hfits : stalled.Fits (maxRuntime []) ⟨0, 0⟩ := fun _ => trivial
  refine ⟨hfits, fun n => ?_, limit_ticking, ?_⟩
  · change secondsBetween ⟨0, 0⟩ (ticking n) ≤ secondsBetween ⟨0, 0⟩ (ticking (n + 1))
    rw [seconds_ticking, seconds_ticking]
    exact Nat.cast_le.mpr (Nat.le_succ n)
  · rw [terminates_iff_notices hfits (maxRuntime_pos [])]
    rintro ⟨n, hnotices⟩
    exact hnotices

end ConnectionOrder.Per
