import ConnectionOrder.Machine
import ConnectionOrder.Scan
import ConnectionOrder.Sends
import ConnectionOrder.Sockets
import Mathlib.Algebra.BigOperators.Group.List.Basic
import Mathlib.Data.UInt

/-!
# The non-persistent client

The connection loop of non, with its inner send loop. `accepted` counts the bytes that
the kernel has taken on the connection; no branch of the program reads it, and in a run
it is the sum of what the sends have answered.
-/

namespace ConnectionOrder.Non

open Machine Scan Sends

def bufferSize : Nat := 1024

def defaultMsgsPerConn : Int := 100000

def defaultRuntime : Int := 1

def runtime (argv : List (List Char)) : Int :=
  match argv[2]? with
  | none => defaultRuntime
  | some arg => if atoi arg ≤ 0 then defaultRuntime else atoi arg

/-- A count that is not positive is reported, and kept. -/
def msgsPerConn (argv : List (List Char)) : Int :=
  match argv[3]? with
  | none => defaultMsgsPerConn
  | some arg => atoi arg

/-- The variables of one turn of the outer loop; `broken` is set by the break. -/
structure Connection where
  msgsSent : Int
  cursor : Cursor
  broken : Bool
  accepted : Nat

def Connection.new : Connection := ⟨0, Cursor.start bufferSize, false, 0⟩

structure State where
  running : Bool
  start : Timespec
  elapsed : ℚ
  conn : Option Connection
  totalMsgsSent : UInt64
  totalPacketsSent : UInt64
  totalConnections : UInt64
  nonComplete : Int

def initial (start : Timespec) : State := ⟨true, start, 0, none, 0, 0, 0, 0⟩

/-- `refused` is a connect that fails; the clock is read after it, and not where there
is no socket. -/
inductive Attempt where
  | noSocket
  | refused (now : Timespec)
  | connected

/-- `turn` is one turn of the inner loop, `finish` what follows it. -/
inductive Input where
  | attempt (a : Attempt)
  | turn (sent : Sent)
  | finish (now : Timespec)
  | signal

def updateElapsed (s : State) (now : Timespec) : State :=
  { s with elapsed := secondsBetween s.start now }

def countSent (s : State) (c : Connection) (sent : Nat) : State :=
  let c := { c with cursor := c.cursor.move sent, accepted := c.accepted + sent }
  if c.cursor.bytesToSend = 0 then
    { s with
      conn := some { c with msgsSent := c.msgsSent + 1, cursor := Cursor.start bufferSize }
      totalMsgsSent := s.totalMsgsSent + 1
      totalPacketsSent := s.totalPacketsSent + 1 }
  else { s with conn := some c }

def turn (s : State) (c : Connection) : Sent → State
  | .bytes n => if 0 < n then countSent s c n else s
  | .again => s
  | .error => { s with conn := some { c with broken := true } }

def finish (argv : List (List Char)) (s : State) (c : Connection) : State :=
  if c.msgsSent = msgsPerConn argv then
    { s with totalConnections := s.totalConnections + 1, conn := none }
  else { s with nonComplete := s.nonComplete + 1, conn := none }

def step (argv : List (List Char)) (s : State) : Input → State
  | .attempt .noSocket => s
  | .attempt (.refused now) => updateElapsed s now
  | .attempt .connected => { s with conn := some Connection.new }
  | .turn sent => s.conn.elim s fun c => turn s c sent
  | .finish now => s.conn.elim s fun c => updateElapsed (finish argv s c) now
  | .signal => { s with running := false }

/-- The condition of the inner loop, and that it has not been left by the break. -/
def Sending (argv : List (List Char)) (s : State) (c : Connection) : Prop :=
  c.msgsSent < msgsPerConn argv ∧ s.running = true ∧ c.broken = false

def Fits (c : Connection) : Sent → Prop
  | .bytes n => n ≤ c.cursor.bytesToSend
  | .again | .error => True

def Permitted (argv : List (List Char)) (s : State) : Input → Prop
  | .attempt _ => s.conn = none ∧ s.running = true ∧ s.elapsed < runtime argv
  | .turn sent => ∃ c, s.conn = some c ∧ Sending argv s c ∧ Fits c sent
  | .finish _ => ∃ c, s.conn = some c ∧ ¬Sending argv s c
  | .signal => True

abbrev Run (argv : List (List Char)) :=
  Execution (step argv) (fun s => ∃ start, s = initial start) (Permitted argv)

/-! ## What the counters hold -/

/-- A connection that is over: the bytes it took, and where it was counted. -/
structure Closed where
  accepted : Nat
  complete : Bool
deriving DecidableEq

def closed (argv : List (List Char)) (s : State) : Input → List Closed
  | .finish _ => s.conn.elim [] fun c =>
    [⟨c.accepted, decide (c.msgsSent = msgsPerConn argv)⟩]
  | .attempt _ | .turn _ | .signal => []

/-- The whole messages among the bytes of a connection. -/
def messages (accepted : Nat) : Nat := accepted / bufferSize

def delivered (cs : List Closed) : Nat := (cs.map fun c => messages c.accepted).sum

/-- The messages of the connection that is open. -/
def current (s : State) : Nat := s.conn.elim 0 fun c => messages c.accepted

structure Connection.Ok (limit : Int) (c : Connection) : Prop where
  cursor : c.cursor = Cursor.at bufferSize c.accepted
  msgs : c.msgsSent = messages c.accepted
  bound : c.msgsSent ≤ max 0 limit
  last : c.msgsSent = limit → c.cursor = Cursor.start bufferSize

/-- The counters behind the connections that are over, `cs`, and the one that is open. -/
structure Accounted (argv : List (List Char)) (cs : List Closed) (s : State) : Prop where
  conn : ∀ c, s.conn = some c → c.Ok (msgsPerConn argv)
  msgs : s.totalMsgsSent = UInt64.ofNat (delivered cs + current s)
  packets : s.totalPacketsSent = s.totalMsgsSent
  complete : s.totalConnections = UInt64.ofNat (cs.countP Closed.complete)
  nonComplete : s.nonComplete = (cs.countP fun c => !c.complete : Nat)
  whole : ∀ c ∈ cs, c.complete = true →
    (messages c.accepted : Int) = msgsPerConn argv ∧ c.accepted % bufferSize = 0

theorem bufferSize_pos : 0 < bufferSize := by decide

theorem ok_new (limit : Int) : Connection.new.Ok limit :=
  ⟨rfl, rfl, le_max_left 0 limit, fun _ => rfl⟩

theorem Accounted.same {argv : List (List Char)} {cs : List Closed} {s s' : State}
    (h : Accounted argv cs s) (hconn : s'.conn = s.conn)
    (hmsgs : s'.totalMsgsSent = s.totalMsgsSent)
    (hpackets : s'.totalPacketsSent = s.totalPacketsSent)
    (hcomplete : s'.totalConnections = s.totalConnections)
    (hnon : s'.nonComplete = s.nonComplete) : Accounted argv cs s' := by
  constructor
  · rw [hconn]
    exact h.conn
  · rw [hmsgs, current, hconn]
    exact h.msgs
  · rw [hpackets, hmsgs]
    exact h.packets
  · rw [hcomplete]
    exact h.complete
  · rw [hnon]
    exact h.nonComplete
  · exact h.whole

/-- The open connection goes on, with `more` messages counted for it. -/
theorem Accounted.proceed {argv : List (List Char)} {cs : List Closed} {s s' : State}
    {c c' : Connection} (h : Accounted argv cs s) (more : Nat) (hconn : s.conn = some c)
    (hconn' : s'.conn = some c') (hok : c'.Ok (msgsPerConn argv))
    (hmore : messages c'.accepted = messages c.accepted + more)
    (hmsgs : s'.totalMsgsSent = s.totalMsgsSent + UInt64.ofNat more)
    (hpackets : s'.totalPacketsSent = s.totalPacketsSent + UInt64.ofNat more)
    (hcomplete : s'.totalConnections = s.totalConnections)
    (hnon : s'.nonComplete = s.nonComplete) : Accounted argv cs s' := by
  constructor
  · intro other hother
    rw [hconn'] at hother
    cases hother
    exact hok
  · have hbefore := h.msgs
    rw [current, hconn] at hbefore
    rw [hmsgs, hbefore, current, hconn', ← UInt64.ofNat_add, Nat.add_assoc]
    exact congrArg (fun n => UInt64.ofNat (delivered cs + n)) hmore.symm
  · rw [hpackets, hmsgs, h.packets]
  · rw [hcomplete]
    exact h.complete
  · rw [hnon]
    exact h.nonComplete
  · exact h.whole

theorem accounted_countSent {argv : List (List Char)} {cs : List Closed} {s : State}
    {c : Connection} {n : Nat} (h : Accounted argv cs s) (hconn : s.conn = some c)
    (hmore : c.msgsSent < msgsPerConn argv) (hfits : n ≤ c.cursor.bytesToSend) :
    Accounted argv cs (countSent s c n) := by
  obtain ⟨hcursor, hmsgs, hbound, _⟩ := h.conn c hconn
  rw [hcursor] at hfits
  rw [countSent]
  dsimp only
  rw [hcursor, Cursor.move]
  dsimp only
  cases eq_or_lt_of_le hfits with
  | inl hlast =>
    obtain ⟨hstart, hdiv⟩ := Cursor.at_last bufferSize_pos hlast
    rw [if_pos (by omega)]
    refine h.proceed 1 hconn rfl ?_ hdiv rfl rfl rfl rfl
    refine ⟨hstart.symm, ?_, le_max_of_le_right hmore, fun _ => rfl⟩
    rw [messages, hdiv, Nat.cast_succ, hmsgs]
    rfl
  | inr hinside =>
    obtain ⟨hmove, hdiv⟩ := Cursor.at_inside bufferSize_pos hinside
    rw [if_neg (by omega)]
    refine h.proceed 0 hconn rfl ?_ hdiv (UInt64.add_zero _).symm
      (UInt64.add_zero _).symm rfl rfl
    refine ⟨hmove.symm, ?_, hbound, fun hlast => absurd hlast (ne_of_lt hmore)⟩
    rw [messages, hdiv]
    exact hmsgs

theorem accounted_turn {argv : List (List Char)} {cs : List Closed} {s : State}
    {c : Connection} {sent : Sent} (h : Accounted argv cs s) (hconn : s.conn = some c)
    (hmore : c.msgsSent < msgsPerConn argv) (hfits : Fits c sent) :
    Accounted argv cs (turn s c sent) := by
  cases sent with
  | again => exact h
  | error =>
    obtain ⟨hcursor, hmsgs, hbound, hlast⟩ := h.conn c hconn
    exact h.proceed 0 hconn rfl ⟨hcursor, hmsgs, hbound, hlast⟩ rfl
      (UInt64.add_zero _).symm (UInt64.add_zero _).symm rfl rfl
  | bytes n =>
    rw [turn]
    split
    · exact accounted_countSent h hconn hmore hfits
    · exact h

theorem delivered_snoc (cs : List Closed) (c : Closed) :
    delivered (cs ++ [c]) = delivered cs + messages c.accepted := by
  rw [delivered, List.map_append, List.sum_append, List.map_singleton, List.sum_singleton,
    delivered]

theorem accounted_finish {argv : List (List Char)} {cs : List Closed} {s : State}
    {c : Connection} (h : Accounted argv cs s) (hconn : s.conn = some c) :
    Accounted argv (cs ++ [⟨c.accepted, decide (c.msgsSent = msgsPerConn argv)⟩])
      (finish argv s c) := by
  obtain ⟨hcursor, hmsgs, _, hlast⟩ := h.conn c hconn
  have htotal : s.totalMsgsSent = UInt64.ofNat (delivered
      (cs ++ [⟨c.accepted, decide (c.msgsSent = msgsPerConn argv)⟩])) := by
    rw [h.msgs, current, hconn, delivered_snoc]
    rfl
  have hwhole : ∀ other ∈ cs ++ [⟨c.accepted, decide (c.msgsSent = msgsPerConn argv)⟩],
      other.complete = true →
        (messages other.accepted : Int) = msgsPerConn argv ∧ other.accepted % bufferSize = 0 := by
    intro other hother
    rcases List.mem_append.mp hother with hold | hnew
    · exact h.whole other hold
    · rw [List.mem_singleton.mp hnew]
      intro hcomplete
      have hlimit := of_decide_eq_true hcomplete
      have hfull := hcursor.symm.trans (hlast hlimit)
      exact ⟨hmsgs.symm.trans hlimit, congrArg Cursor.bufPtr hfull⟩
  rw [finish]
  split
  · rename_i hcomplete
    constructor
    · intro other hother
      cases hother
    · exact htotal
    · exact h.packets
    · rw [List.countP_append, decide_eq_true hcomplete]
      dsimp only
      rw [h.complete, UInt64.ofNat_add]
      rfl
    · rw [List.countP_append, decide_eq_true hcomplete]
      exact h.nonComplete
    · exact hwhole
  · rename_i hcut
    constructor
    · intro other hother
      cases hother
    · exact htotal
    · exact h.packets
    · rw [List.countP_append, decide_eq_false hcut]
      exact h.complete
    · rw [List.countP_append, decide_eq_false hcut]
      dsimp only
      rw [h.nonComplete]
      rfl
    · exact hwhole

theorem accounted_step {argv : List (List Char)} {cs : List Closed} {s : State} {i : Input}
    (hp : Permitted argv s i) (h : Accounted argv cs s) :
    Accounted argv (cs ++ closed argv s i) (step argv s i) := by
  cases i with
  | signal =>
    rw [closed, List.append_nil]
    exact h.same rfl rfl rfl rfl rfl
  | attempt a =>
    rw [closed, List.append_nil]
    cases a with
    | noSocket => exact h
    | refused now => exact h.same rfl rfl rfl rfl rfl
    | connected =>
      have htotal := h.msgs
      rw [current, hp.1] at htotal
      refine ⟨?_, htotal, h.packets, h.complete, h.nonComplete, h.whole⟩
      intro c hc
      cases hc
      exact ok_new _
  | turn sent =>
    obtain ⟨c, hconn, ⟨hmore, _⟩, hfits⟩ := hp
    rw [closed, List.append_nil, step, hconn]
    exact accounted_turn h hconn hmore hfits
  | finish now =>
    obtain ⟨c, hconn, _⟩ := hp
    rw [closed, step, hconn]
    exact (accounted_finish h hconn).same rfl rfl rfl rfl rfl

theorem accounted_run {argv : List (List Char)} (x : Run argv) :
    Accounted argv (x.observed (closed argv)) x.final := by
  apply x.history_induction (P := fun is => Accounted argv
    (collect (step argv) (closed argv) x.start is) (run (step argv) x.start is))
  · obtain ⟨start, hstart⟩ := x.begins
    rw [run_nil, hstart]
    exact ⟨nofun, rfl, rfl, rfl, rfl, nofun⟩
  · intro is i _ hp ih
    rw [collect_snoc, run_snoc]
    exact accounted_step hp ih

/-! ## The answers of send -/

/-- The bytes that the kernel has taken on the connections that are over, and on the one
that is open. -/
structure Answered where
  past : List Nat
  now : Option Nat

def Answered.note (a : Answered) : Input → Answered
  | .attempt .connected => { a with now := some 0 }
  | .turn sent => { a with now := a.now.map (· + taken sent) }
  | .finish _ => ⟨a.past ++ a.now.toList, none⟩
  | .attempt .noSocket | .attempt (.refused _) | .signal => a

def answered (inputs : List Input) : Answered := inputs.foldl Answered.note ⟨[], none⟩

theorem conn_turn {s : State} {c : Connection} (h : s.conn = some c) (sent : Sent) :
    ∃ c', (turn s c sent).conn = some c' ∧ c'.accepted = c.accepted + taken sent := by
  cases sent with
  | again => exact ⟨c, h, rfl⟩
  | error => exact ⟨_, rfl, rfl⟩
  | bytes n =>
    rw [turn]
    split
    · rw [countSent]
      dsimp only
      split <;> exact ⟨_, rfl, rfl⟩
    · rename_i hn
      refine ⟨c, h, ?_⟩
      rw [taken, Nat.eq_zero_of_not_pos hn, Nat.add_zero]

theorem conn_finish (argv : List (List Char)) (s : State) (c : Connection) :
    (finish argv s c).conn = none := by
  rw [finish]
  split <;> rfl

/-- The connections that are over and the one that is open are as the answers say. -/
def Follows (a : Answered) (cs : List Closed) (s : State) : Prop :=
  cs.map Closed.accepted = a.past ∧ s.conn.map Connection.accepted = a.now

theorem follows_step {argv : List (List Char)} {a : Answered} {cs : List Closed} {s : State}
    {i : Input} (hp : Permitted argv s i) (h : Follows a cs s) :
    Follows (a.note i) (cs ++ closed argv s i) (step argv s i) := by
  obtain ⟨hpast, hnow⟩ := h
  cases i with
  | signal =>
    rw [closed, List.append_nil]
    exact ⟨hpast, hnow⟩
  | attempt tried =>
    rw [closed, List.append_nil]
    cases tried with
    | noSocket | refused now => exact ⟨hpast, hnow⟩
    | connected => exact ⟨hpast, rfl⟩
  | turn sent =>
    obtain ⟨c, hconn, _⟩ := hp
    obtain ⟨c', hconn', haccepted⟩ := conn_turn hconn sent
    rw [hconn] at hnow
    rw [closed, List.append_nil, step, hconn]
    refine ⟨hpast, ?_⟩
    change (turn s c sent).conn.map Connection.accepted = a.now.map (· + taken sent)
    rw [hconn', ← hnow]
    exact congrArg some haccepted
  | finish now =>
    obtain ⟨c, hconn, _⟩ := hp
    rw [hconn] at hnow
    rw [closed, step, hconn, Answered.note, ← hnow, ← hpast]
    refine ⟨List.map_append, ?_⟩
    change (finish argv s c).conn.map Connection.accepted = none
    rw [conn_finish]
    rfl

theorem follows_run {argv : List (List Char)} (x : Run argv) :
    Follows (answered x.inputs) (x.observed (closed argv)) x.final := by
  apply x.history_induction (P := fun is => Follows (answered is)
    (collect (step argv) (closed argv) x.start is) (run (step argv) x.start is))
  · obtain ⟨start, hstart⟩ := x.begins
    rw [run_nil, hstart]
    exact ⟨rfl, rfl⟩
  · intro is i _ hp ih
    rw [collect_snoc, run_snoc, answered, List.foldl_append]
    exact follows_step hp ih

/-- The connections of a run that are over, with the bytes that send has answered for them. -/
def connections (argv : List (List Char)) (x : Run argv) : List Closed :=
  List.zipWith Closed.mk (answered x.inputs).past ((x.observed (closed argv)).map Closed.complete)

theorem connections_eq {argv : List (List Char)} (x : Run argv) :
    connections argv x = x.observed (closed argv) := by
  rw [connections, ← (follows_run x).1, List.zipWith_map, List.zipWith_self]
  exact List.map_id _

theorem current_run {argv : List (List Char)} (x : Run argv) :
    current x.final = (answered x.inputs).now.elim 0 messages := by
  rw [← (follows_run x).2, current, Option.elim_map]
  rfl

/-! ## Completed connections -/

def isConnect : Input → Bool
  | .attempt .connected => true
  | .attempt .noSocket | .attempt (.refused _) | .turn _ | .finish _ | .signal => false

def opened (s : State) : Nat := s.conn.elim 0 fun _ => 1

theorem opened_some {s : State} {c : Connection} (h : s.conn = some c) : opened s = 1 := by
  rw [opened, h]
  rfl

theorem opened_turn {s : State} {c : Connection} (h : s.conn = some c) (sent : Sent) :
    opened (turn s c sent) = 1 := by
  cases sent with
  | again => exact opened_some h
  | error => rfl
  | bytes n =>
    rw [turn]
    split
    · rw [countSent]
      dsimp only
      split <;> rfl
    · exact opened_some h

/-- A connection is opened by one attempt, and closed once. -/
theorem opened_step {argv : List (List Char)} {s : State} {i : Input} (hp : Permitted argv s i) :
    opened s + [i].countP isConnect = (closed argv s i).length + opened (step argv s i) := by
  cases i with
  | signal => exact (Nat.zero_add _).symm
  | attempt a =>
    cases a with
    | noSocket | refused now => exact (Nat.zero_add _).symm
    | connected =>
      have hnone : opened s = 0 := by
        rw [opened, hp.1]
        rfl
      rw [hnone]
      rfl
  | turn sent =>
    obtain ⟨c, hconn, _⟩ := hp
    have hstays : opened (step argv s (.turn sent)) = 1 := by
      rw [step, hconn]
      exact opened_turn hconn sent
    rw [opened_some hconn, hstays]
    rfl
  | finish now =>
    obtain ⟨c, hconn, _⟩ := hp
    have hover : opened (step argv s (.finish now)) = 0 := by
      rw [step, hconn]
      change opened (updateElapsed (finish argv s c) now) = 0
      rw [finish]
      split <;> rfl
    rw [opened_some hconn, hover, closed, hconn]
    rfl

theorem connects_run {argv : List (List Char)} (x : Run argv) :
    x.inputs.countP isConnect = (x.observed (closed argv)).length + opened x.final := by
  apply x.history_induction (P := fun is => is.countP isConnect =
    (collect (step argv) (closed argv) x.start is).length +
      opened (run (step argv) x.start is))
  · obtain ⟨start, hstart⟩ := x.begins
    rw [run_nil, hstart]
    rfl
  · intro is i _ hp ih
    have hstep := opened_step hp
    rw [List.countP_append, collect_snoc, run_snoc, List.length_append, ih]
    omega

/-- The two int counters: the messages of one connection, and the connections cut off. -/
theorem ints_bounded {argv : List (List Char)} (x : Run argv) :
    (∀ c, x.final.conn = some c → 0 ≤ c.msgsSent ∧ c.msgsSent ≤ max 0 (msgsPerConn argv)) ∧
    0 ≤ x.final.nonComplete ∧ x.final.nonComplete ≤ x.inputs.countP isConnect := by
  have haccounted := accounted_run x
  constructor
  · intro c hconn
    have hok := haccounted.conn c hconn
    exact ⟨hok.msgs ▸ Int.natCast_nonneg _, hok.bound⟩
  · have hcut := List.countP_le_length (p := fun c => !c.complete)
      (l := x.observed (closed argv))
    rw [haccounted.nonComplete, connects_run]
    omega

theorem delivered_split {limit : Nat} {cs : List Closed}
    (h : ∀ c ∈ cs, c.complete = true → messages c.accepted = limit) :
    delivered cs =
      limit * cs.countP Closed.complete + delivered (cs.filter fun c => !c.complete) := by
  induction cs with
  | nil => rfl
  | cons c cs ih =>
    have hrest := ih fun c' hc' => h c' (List.mem_cons_of_mem c hc')
    rw [delivered, List.map_cons, List.sum_cons, ← delivered, hrest, List.countP_cons,
      List.filter_cons]
    cases hcomplete : c.complete with
    | true =>
      rw [h c List.mem_cons_self hcomplete, if_pos rfl, Bool.not_true, if_neg Bool.false_ne_true,
        Nat.mul_succ]
      omega
    | false =>
      rw [if_neg Bool.false_ne_true, Bool.not_false, if_pos rfl, Nat.add_zero, delivered, delivered,
        List.map_cons, List.sum_cons]
      omega

/-- The given count where it is positive, else the default. -/
def intended (argv : List (List Char)) : Int :=
  match argv[3]? with
  | none => defaultMsgsPerConn
  | some arg => if 0 < atoi arg then atoi arg else defaultMsgsPerConn

/-- What the statistics of a run are to show; `cut` are the connections that were not
completed. -/
structure CompletedRight (argv : List (List Char)) (x : Run argv) : Prop where
  limit : msgsPerConn argv = intended argv ∧ 1 ≤ msgsPerConn argv
  counted : ∃ complete cut : Nat, x.final.totalConnections = UInt64.ofNat complete ∧
    x.final.nonComplete = cut ∧
    complete = (connections argv x).countP Closed.complete ∧
    complete + cut + opened x.final = x.inputs.countP isConnect
  delivered : ∀ c ∈ connections argv x, c.complete = true →
    (messages c.accepted : Int) = msgsPerConn argv ∧ c.accepted % bufferSize = 0
  total : x.final.totalMsgsSent = UInt64.ofNat
    ((msgsPerConn argv).toNat * (connections argv x).countP Closed.complete +
      Non.delivered ((connections argv x).filter fun c => !c.complete) +
      (answered x.inputs).now.elim 0 messages)

/-- The count is as intended exactly where none is given or a positive one. -/
theorem limit_iff (argv : List (List Char)) :
    (msgsPerConn argv = intended argv ∧ 1 ≤ msgsPerConn argv) ↔
      ∀ arg ∈ argv[3]?, 0 < atoi arg := by
  rw [msgsPerConn, intended]
  cases argv[3]? with
  | none => exact iff_of_true ⟨rfl, by decide⟩ nofun
  | some arg =>
    dsimp only
    constructor
    · rintro ⟨_, hpos⟩ _ ⟨⟩
      exact hpos
    · intro h
      have hpos := h arg rfl
      rw [if_pos hpos]
      exact ⟨rfl, hpos⟩

theorem completed_iff (argv : List (List Char)) (x : Run argv) :
    CompletedRight argv x ↔ ∀ arg ∈ argv[3]?, 0 < atoi arg := by
  rw [← limit_iff]
  have haccounted := accounted_run x
  rw [← connections_eq] at haccounted
  refine ⟨fun h => h.limit, fun hlimit => ⟨hlimit, ?_, haccounted.whole, ?_⟩⟩
  · refine ⟨_, _, haccounted.complete, haccounted.nonComplete, rfl, ?_⟩
    have hpart := List.length_eq_countP_add_countP (p := Closed.complete)
      (l := connections argv x)
    rw [connects_run, ← connections_eq, hpart]
    simp only [decide_not, Bool.decide_eq_true]
  · have hwhole : ∀ c ∈ connections argv x, c.complete = true →
        messages c.accepted = (msgsPerConn argv).toNat := by
      intro c hc hcomplete
      have hmessages := (haccounted.whole c hc hcomplete).1
      omega
    rw [← delivered_split hwhole, ← current_run]
    exact haccounted.msgs

/-- The third argument is "0". -/
def zeroMessages : List (List Char) := ["non".toList, "10.0.0.1".toList, ['1'], ['0']]

theorem permitted_zeroMessages : Along (step zeroMessages) (Permitted zeroMessages)
    (initial ⟨0, 0⟩) [.attempt .connected, .finish ⟨0, 0⟩] := by
  refine ⟨⟨rfl, rfl, by decide⟩, ⟨Connection.new, rfl, ?_⟩, trivial⟩
  exact fun hsending => absurd hsending.1 (by decide)

def zeroMessagesRun : Run zeroMessages :=
  ⟨initial ⟨0, 0⟩, [.attempt .connected, .finish ⟨0, 0⟩], ⟨⟨0, 0⟩, rfl⟩, permitted_zeroMessages⟩

/-- A connection that took nothing is counted as completed. -/
theorem empty_zeroMessages : zeroMessagesRun.final.totalConnections = 1 ∧
    connections zeroMessages zeroMessagesRun = [⟨0, true⟩] ∧
    intended zeroMessages = defaultMsgsPerConn ∧ ¬CompletedRight zeroMessages zeroMessagesRun := by
  refine ⟨by decide, by decide, by decide, fun h => ?_⟩
  exact absurd h.limit.2 (by decide)

end ConnectionOrder.Non
