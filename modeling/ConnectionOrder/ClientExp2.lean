import ConnectionOrder.Machine
import ConnectionOrder.Sockets
import Mathlib.Tactic.Linarith

/-!
# clientexp2

persistent_connection and frequent_connection, which share the descriptors of the process
and nothing else. A system call is a step, and the steps of the two threads come in any
order. How much of a message a send takes is not looked at.
-/

namespace ConnectionOrder.ClientExp2

open Machine

def numMessages : Int := 10000

def batchSize : Int := 1000

inductive Phase where
  | socket
  | inetPton (sock : Fd)
  | connect (sock : Fd)
  | send (sock : Fd) (j : Int)
  | close (sock : Fd)
  | exited
deriving DecidableEq

/-- `i` is the variable of the outer loop, and 0 where there is none. -/
structure Local where
  i : Int
  phase : Phase

/-- What the functions differ in: the condition of the send loop, and the next value of `i`,
`none` where the thread exits. -/
structure Behaviour where
  more : Int → Int → Bool
  next : Int → Option Int

def persistentConnection : Behaviour where
  more _ j := decide (j < numMessages)
  next _ := none

def frequentConnection : Behaviour where
  more i j := decide (j < batchSize ∧ i + j < numMessages)
  next i := if i + batchSize < numMessages then some (i + batchSize) else none

inductive Thread where
  | persistent
  | frequent
deriving DecidableEq

def behaviour : Thread → Behaviour
  | .persistent => persistentConnection
  | .frequent => frequentConnection

/-- What the system calls return; `leave` is the end of the send loop. -/
inductive Answer where
  | socket (sock : Option Fd)
  | inetPton (ok : Bool)
  | connect (ok : Bool)
  | send (ok : Bool)
  | leave
  | close

structure State where
  sockets : Finset Fd
  thread : Thread → Local

def initial : State := ⟨∅, fun _ => ⟨0, .socket⟩⟩

/-- pthread_exit, or continue and the end of the loop body. -/
def endSession (b : Behaviour) (l : Local) : Local :=
  match b.next l.i with
  | none => { l with phase := .exited }
  | some i => ⟨i, .socket⟩

def turn (b : Behaviour) (l : Local) (a : Answer) : Local :=
  match l.phase, a with
  | .socket, .socket (some sock) => { l with phase := .inetPton sock }
  | .socket, .socket none => endSession b l
  | .inetPton sock, .inetPton ok => { l with phase := if ok then .connect sock else .close sock }
  | .connect sock, .connect ok => { l with phase := if ok then .send sock 0 else .close sock }
  | .send sock j, .send ok => { l with phase := if ok then .send sock (j + 1) else .close sock }
  | .send sock _, .leave => { l with phase := .close sock }
  | .close _, .close => endSession b l
  | _, _ => l

/-- The descriptors after the call. -/
def call (sockets : Finset Fd) (phase : Phase) : Answer → Finset Fd
  | .socket (some sock) => insert sock sockets
  | .close =>
    match phase with
    | .close sock => sockets.erase sock
    | _ => sockets
  | .socket none | .inetPton _ | .connect _ | .send _ | .leave => sockets

def step (s : State) (input : Thread × Answer) : State where
  sockets := call s.sockets (s.thread input.1).phase input.2
  thread := Function.update s.thread input.1
    (turn (behaviour input.1) (s.thread input.1) input.2)

/-- The answer is one to the call that the thread makes. -/
def Fits (b : Behaviour) (sockets : Finset Fd) (l : Local) (a : Answer) : Prop :=
  match l.phase, a with
  | .socket, .socket sock => ∀ fd ∈ sock, fd ∉ sockets
  | .inetPton _, .inetPton _ | .connect _, .connect _ | .close _, .close => True
  | .send _ j, .send _ => b.more l.i j = true
  | .send _ j, .leave => b.more l.i j = false
  | _, _ => False

def Permitted (s : State) (input : Thread × Answer) : Prop :=
  Fits (behaviour input.1) s.sockets (s.thread input.1) input.2

abbrev Run := Execution step (fun s => s = initial) Permitted

/-! ## One call -/

/-- The calls of a thread, and what they do to its phase and to the descriptors. -/
inductive Moved (b : Behaviour) (sockets : Finset Fd) (l : Local) :
    Answer → Local → Finset Fd → Prop
  | noSocket (hphase : l.phase = .socket) :
      Moved b sockets l (.socket none) (endSession b l) sockets
  | opened {sock : Fd} (hphase : l.phase = .socket) (hnew : sock ∉ sockets) :
      Moved b sockets l (.socket (some sock)) { l with phase := .inetPton sock }
        (insert sock sockets)
  | inetPton {sock : Fd} (hphase : l.phase = .inetPton sock) (ok : Bool) :
      Moved b sockets l (.inetPton ok)
        { l with phase := if ok then .connect sock else .close sock } sockets
  | connect {sock : Fd} (hphase : l.phase = .connect sock) (ok : Bool) :
      Moved b sockets l (.connect ok)
        { l with phase := if ok then .send sock 0 else .close sock } sockets
  | send {sock : Fd} {j : Int} (hphase : l.phase = .send sock j) (hmore : b.more l.i j = true)
      (ok : Bool) : Moved b sockets l (.send ok)
        { l with phase := if ok then .send sock (j + 1) else .close sock } sockets
  | leave {sock : Fd} {j : Int} (hphase : l.phase = .send sock j)
      (hmore : b.more l.i j = false) :
      Moved b sockets l .leave { l with phase := .close sock } sockets
  | close {sock : Fd} (hphase : l.phase = .close sock) :
      Moved b sockets l .close (endSession b l) (sockets.erase sock)

theorem moved_of_fits {b : Behaviour} {sockets : Finset Fd} {l : Local} {a : Answer}
    (h : Fits b sockets l a) : Moved b sockets l a (turn b l a) (call sockets l.phase a) := by
  obtain ⟨i, phase⟩ := l
  cases phase with
  | socket =>
    cases a with
    | socket sock =>
      cases sock with
      | none => exact .noSocket rfl
      | some sock => exact .opened rfl (h sock rfl)
    | inetPton | connect | send | leave | close => exact False.elim h
  | inetPton sock =>
    cases a with
    | inetPton ok => exact .inetPton rfl ok
    | socket | connect | send | leave | close => exact False.elim h
  | connect sock =>
    cases a with
    | connect ok => exact .connect rfl ok
    | socket | inetPton | send | leave | close => exact False.elim h
  | send sock j =>
    cases a with
    | send ok => exact .send rfl h ok
    | leave => exact .leave rfl h
    | socket | inetPton | connect | close => exact False.elim h
  | close sock =>
    cases a with
    | close => exact .close rfl
    | socket | inetPton | connect | send | leave => exact False.elim h
  | exited => exact False.elim h

/-! ## The descriptors -/

def Phase.sock : Phase → Option Fd
  | .inetPton sock | .connect sock | .send sock _ | .close sock => some sock
  | .socket | .exited => none

/-- Every open descriptor belongs to one thread, which works with it. -/
structure Owned (sockets : Finset Fd) (held : Thread → Option Fd) : Prop where
  mem_iff : ∀ fd, fd ∈ sockets ↔ ∃ t, held t = some fd
  apart : ∀ {t t' fd}, held t = some fd → held t' = some fd → t = t'

def State.held (s : State) (t : Thread) : Option Fd := (s.thread t).phase.sock

namespace Owned

variable {sockets : Finset Fd} {held : Thread → Option Fd} {t : Thread} {fd : Fd}

theorem none : Owned ∅ fun _ => none where
  mem_iff fd := iff_of_false (Finset.notMem_empty fd) fun ⟨_, h⟩ => by cases h
  apart h := by cases h

theorem opens (h : Owned sockets held) (hnone : held t = Option.none) (hnew : fd ∉ sockets) :
    Owned (insert fd sockets) (Function.update held t (some fd)) where
  mem_iff other := by
    rw [Finset.mem_insert, h.mem_iff]
    constructor
    · rintro (rfl | ⟨t', ht'⟩)
      · exact ⟨t, Function.update_self ..⟩
      · refine ⟨t', ?_⟩
        rwa [Function.update_of_ne]
        rintro rfl
        rw [hnone] at ht'
        cases ht'
    · rintro ⟨t', ht'⟩
      rcases eq_or_ne t' t with rfl | hne
      · rw [Function.update_self] at ht'
        exact .inl (Option.some_inj.mp ht').symm
      · rw [Function.update_of_ne hne] at ht'
        exact .inr ⟨t', ht'⟩
  apart {t₁ t₂ other} h₁ h₂ := by
    have hother : ∀ {t'}, t' ≠ t → held t' ≠ some fd :=
      fun _ ht' => hnew ((h.mem_iff fd).mpr ⟨_, ht'⟩)
    rcases eq_or_ne t₁ t with rfl | hne₁
    · rcases eq_or_ne t₂ t₁ with rfl | hne₂
      · rfl
      · rw [Function.update_self] at h₁
        rw [Function.update_of_ne hne₂, ← h₁] at h₂
        exact absurd h₂ (hother hne₂)
    · rcases eq_or_ne t₂ t with rfl | hne₂
      · rw [Function.update_self] at h₂
        rw [Function.update_of_ne hne₁, ← h₂] at h₁
        exact absurd h₁ (hother hne₁)
      · rw [Function.update_of_ne hne₁] at h₁
        rw [Function.update_of_ne hne₂] at h₂
        exact h.apart h₁ h₂

theorem closes (h : Owned sockets held) (hsome : held t = some fd) :
    Owned (sockets.erase fd) (Function.update held t Option.none) where
  mem_iff other := by
    rw [Finset.mem_erase, h.mem_iff]
    constructor
    · rintro ⟨hne, t', ht'⟩
      refine ⟨t', ?_⟩
      rwa [Function.update_of_ne]
      rintro rfl
      rw [hsome] at ht'
      exact hne (Option.some_inj.mp ht').symm
    · rintro ⟨t', ht'⟩
      rcases eq_or_ne t' t with rfl | hne
      · rw [Function.update_self] at ht'
        cases ht'
      · rw [Function.update_of_ne hne] at ht'
        refine ⟨?_, t', ht'⟩
        rintro rfl
        exact hne (h.apart ht' hsome)
  apart {t₁ t₂ other} h₁ h₂ := by
    have hother : ∀ {t'}, Function.update held t Option.none t' = some other →
        held t' = some other := by
      intro t' ht'
      rcases eq_or_ne t' t with rfl | hne
      · rw [Function.update_self] at ht'
        cases ht'
      · rwa [Function.update_of_ne hne] at ht'
    exact h.apart (hother h₁) (hother h₂)

end Owned

theorem sock_endSession (b : Behaviour) (l : Local) : (endSession b l).phase.sock = none := by
  rw [endSession]
  split <;> rfl

theorem held_step (s : State) (t : Thread) (a : Answer) : (step s (t, a)).held =
    Function.update s.held t (turn (behaviour t) (s.thread t) a).phase.sock := by
  funext t'
  change (Function.update s.thread t _ t').phase.sock = _
  rcases eq_or_ne t' t with rfl | hne
  · rw [Function.update_self, Function.update_self]
  · rw [Function.update_of_ne hne, Function.update_of_ne hne]
    rfl

theorem owned_step {s : State} {t : Thread} {a : Answer} (h : Owned s.sockets s.held)
    (hp : Permitted s (t, a)) : Owned (step s (t, a)).sockets (step s (t, a)).held := by
  have hmoved : Moved (behaviour t) s.sockets (s.thread t) a _ _ := moved_of_fits hp
  have hkeep : ∀ held, held = s.held t → Owned s.sockets (Function.update s.held t held) := by
    rintro _ rfl
    rw [Function.update_eq_self]
    exact h
  have hsock : ∀ phase, (s.thread t).phase = phase → s.held t = phase.sock := by
    rintro _ rfl
    rfl
  rw [held_step]
  change Owned (call s.sockets (s.thread t).phase a) _
  generalize turn (behaviour t) (s.thread t) a = l at *
  generalize call s.sockets (s.thread t).phase a = sockets at *
  cases hmoved with
  | noSocket hphase =>
    refine hkeep _ ?_
    rw [sock_endSession, hsock _ hphase]
    rfl
  | opened hphase hnew => exact h.opens (hsock _ hphase) hnew
  | inetPton hphase ok | connect hphase ok | send hphase hmore ok =>
    refine hkeep _ ?_
    rw [hsock _ hphase]
    cases ok <;> rfl
  | leave hphase hmore =>
    refine hkeep _ ?_
    rw [hsock _ hphase]
    rfl
  | close hphase =>
    rw [sock_endSession]
    exact h.closes (hsock _ hphase)

/-! ## The sessions of a thread -/

def Starts (size total i : Int) : Prop := 0 ≤ i ∧ size ∣ i ∧ i + size ≤ total

/-- The loops make `total` messages out of sessions of `size` messages. -/
structure Sessions (b : Behaviour) (size total : Int) : Prop where
  pos : 0 < size
  first : Starts size total 0
  more_iff : ∀ {i j}, i + size ≤ total → (b.more i j = true ↔ j < size)
  next_none : ∀ {i}, Starts size total i → b.next i = none → i + size = total
  next_some : ∀ {i i'}, Starts size total i → b.next i = some i' →
    i' = i + size ∧ Starts size total i'

/-- The messages of the sessions behind a thread. -/
def Local.base (total : Int) (l : Local) : Int := if l.phase = .exited then total else l.i

/-- The messages of the session that goes on, if no call fails. -/
def Phase.sent (size : Int) : Phase → Int
  | .send _ j => j
  | .close _ => size
  | .socket | .inetPton _ | .connect _ | .exited => 0

/-- `size` once this session has its connection. -/
def Phase.connected (size : Int) : Phase → Int
  | .send .. | .close _ => size
  | .socket | .inetPton _ | .connect _ | .exited => 0

/-- The calls of the session that goes on, if none fails. -/
def Phase.made (size : Int) : Phase → Int
  | .inetPton _ => 1
  | .connect _ => 2
  | .send _ j => 3 + j
  | .close _ => size + 4
  | .socket | .exited => 0

def Answer.sends : Answer → Nat
  | .send ok => if ok then 1 else 0
  | .socket _ | .inetPton _ | .connect _ | .leave | .close => 0

def Answer.connects : Answer → Nat
  | .connect ok => if ok then 1 else 0
  | .socket _ | .inetPton _ | .send _ | .leave | .close => 0

def Answer.ok : Answer → Bool
  | .socket sock => sock.isSome
  | .inetPton ok | .connect ok | .send ok => ok
  | .leave | .close => true

/-- At most what the place in the loops accounts for. -/
structure Within (size total : Int) (l : Local) (sends conns calls : Int) : Prop where
  starts : l.phase ≠ .exited → Starts size total l.i
  inside : ∀ {sock j}, l.phase = .send sock j → 0 ≤ j ∧ j ≤ size
  sends : sends ≤ l.base total + l.phase.sent size
  conns : conns * size ≤ l.base total + l.phase.connected size
  calls : calls * size ≤ l.base total * (size + 5) + l.phase.made size * size

/-- Exactly that, which takes that no call fails. -/
structure Exactly (size total : Int) (l : Local) (sends conns : Int) : Prop where
  sends : sends = l.base total + l.phase.sent size
  conns : conns * size = l.base total + l.phase.connected size

section Sessions

variable {b : Behaviour} {size total : Int} (r : Sessions b size total)
variable {l l' : Local} {sends conns calls : Int}

include r

theorem endSession_cases (hstarts : Starts size total l.i) :
    (endSession b l).base total = l.i + size ∧
      ((endSession b l).phase = .socket ∨ (endSession b l).phase = .exited) ∧
      ((endSession b l).phase ≠ .exited → Starts size total (endSession b l).i) := by
  rw [endSession]
  cases hnext : b.next l.i with
  | none => exact ⟨(r.next_none hstarts hnext).symm, .inr rfl, fun hne => absurd rfl hne⟩
  | some i =>
    obtain ⟨rfl, hstarts'⟩ := r.next_some hstarts hnext
    exact ⟨rfl, .inl rfl, fun _ => hstarts'⟩

theorem within_endSession (hstarts : Starts size total l.i) (hsends : sends ≤ l.i + size)
    (hconns : conns * size ≤ l.i + size) (hcalls : calls * size ≤ (l.i + size) * (size + 5)) :
    Within size total (endSession b l) sends conns calls := by
  obtain ⟨hbase, hphase, hnext⟩ := endSession_cases r hstarts
  have hzero : (endSession b l).phase.sent size = 0 ∧ (endSession b l).phase.connected size = 0 ∧
      (endSession b l).phase.made size = 0 := by
    rcases hphase with hphase | hphase <;> rw [hphase] <;> exact ⟨rfl, rfl, rfl⟩
  refine ⟨hnext, ?_, ?_, ?_, ?_⟩
  · intro sock j hsend
    rcases hphase with hphase | hphase <;> rw [hphase] at hsend <;> cases hsend
  · rw [hbase, hzero.1, add_zero]
    exact hsends
  · rw [hbase, hzero.2.1, add_zero]
    exact hconns
  · rw [hbase, hzero.2.2, zero_mul, add_zero]
    exact hcalls

omit r in
theorem base_eq {phase : Phase} (hphase : l.phase = phase) (halive : phase ≠ .exited) :
    l.base total = l.i := if_neg (hphase ▸ halive)

omit r in
theorem within_phase (hstarts : Starts size total l.i) {phase : Phase} (halive : phase ≠ .exited)
    (hinside : ∀ {sock j}, phase = .send sock j → 0 ≤ j ∧ j ≤ size)
    (hsends : sends ≤ l.i + phase.sent size) (hconns : conns * size ≤ l.i + phase.connected size)
    (hcalls : calls * size ≤ l.i * (size + 5) + phase.made size * size) :
    Within size total { l with phase := phase } sends conns calls := by
  have hbase : Local.base total { l with phase := phase } = l.i := base_eq rfl halive
  refine ⟨fun _ => hstarts, hinside, ?_, ?_, ?_⟩ <;> rw [hbase]
  · exact hsends
  · exact hconns
  · exact hcalls

theorem Within.step (h : Within size total l sends conns calls) {sockets sockets' : Finset Fd}
    {a : Answer} (hmoved : Moved b sockets l a l' sockets') :
    Within size total l' (sends + a.sends) (conns + a.connects) (calls + 1) := by
  have hpos := r.pos
  have hsends := h.sends
  have hconns := h.conns
  have hcalls := h.calls
  have hplace : ∀ {phase}, l.phase = phase → phase ≠ .exited →
      Starts size total l.i ∧ sends ≤ l.i + phase.sent size ∧
        conns * size ≤ l.i + phase.connected size ∧
        calls * size ≤ l.i * (size + 5) + phase.made size * size := by
    rintro _ rfl halive
    rw [base_eq rfl halive] at hsends hconns hcalls
    exact ⟨h.starts halive, hsends, hconns, hcalls⟩
  have hquiet : ∀ {phase phase'}, l.phase = phase → phase ≠ .exited → phase' ≠ .exited →
      (∀ {sock j}, phase' = .send sock j → 0 ≤ j ∧ j ≤ size) →
      phase.sent size ≤ phase'.sent size → phase.connected size ≤ phase'.connected size →
      phase.made size + 1 ≤ phase'.made size →
      Within size total { l with phase := phase' } (sends + 0) (conns + 0) (calls + 1) := by
    intro phase phase' hphase halive halive' hinside hsent hconnected hmade
    obtain ⟨hstarts, hsends, hconns, hcalls⟩ := hplace hphase halive
    have hscaled := mul_le_mul_of_nonneg_right hmade (le_of_lt hpos)
    refine within_phase hstarts halive' hinside ?_ ?_ ?_ <;> linarith
  have hend : ∀ {phase}, l.phase = phase → phase ≠ .exited → phase.sent size ≤ size →
      phase.connected size ≤ size → phase.made size + 1 ≤ size + 5 →
      Within size total (endSession b l) (sends + 0) (conns + 0) (calls + 1) := by
    intro phase hphase halive hsent hconnected hmade
    obtain ⟨hstarts, hsends, hconns, hcalls⟩ := hplace hphase halive
    have hscaled := mul_le_mul_of_nonneg_right hmade (le_of_lt hpos)
    refine within_endSession r hstarts ?_ ?_ ?_ <;> linarith
  cases hmoved with
  | noSocket hphase =>
    refine hend hphase Phase.noConfusion (le_of_lt hpos) (le_of_lt hpos) ?_
    change 0 + 1 ≤ size + 5
    linarith
  | opened hphase hnew =>
    exact hquiet hphase Phase.noConfusion Phase.noConfusion (fun hsend => by cases hsend)
      (le_refl _) (le_refl _) (le_refl _)
  | inetPton hphase ok =>
    cases ok with
    | true =>
      exact hquiet hphase Phase.noConfusion Phase.noConfusion (fun hsend => by cases hsend)
        (le_refl _) (le_refl _) (le_refl _)
    | false =>
      refine hquiet hphase Phase.noConfusion Phase.noConfusion (fun hsend => by cases hsend)
        (le_of_lt hpos) (le_of_lt hpos) ?_
      change 1 + 1 ≤ size + 4
      linarith
  | connect hphase ok =>
    cases ok with
    | true =>
      obtain ⟨hstarts, hsends, hconns, hcalls⟩ := hplace hphase Phase.noConfusion
      rw [Phase.sent] at hsends
      rw [Phase.connected] at hconns
      rw [Phase.made] at hcalls
      refine within_phase hstarts Phase.noConfusion (fun hsend => ?_) ?_ ?_ ?_
      · cases hsend
        exact ⟨le_refl _, le_of_lt hpos⟩
      · change sends + 0 ≤ l.i + 0
        linarith
      · change (conns + 1) * size ≤ l.i + size
        linarith
      · change (calls + 1) * size ≤ l.i * (size + 5) + (3 + 0) * size
        linarith
    | false =>
      refine hquiet hphase Phase.noConfusion Phase.noConfusion (fun hsend => by cases hsend)
        (le_of_lt hpos) (le_of_lt hpos) ?_
      change 2 + 1 ≤ size + 4
      linarith
  | send hphase hmore ok =>
    obtain ⟨hstarts, hsends, hconns, hcalls⟩ := hplace hphase Phase.noConfusion
    have hlt := (r.more_iff hstarts.2.2).mp hmore
    have hlow := (h.inside hphase).1
    cases ok with
    | true =>
      rw [Phase.sent] at hsends
      rw [Phase.connected] at hconns
      rw [Phase.made] at hcalls
      refine within_phase hstarts Phase.noConfusion (fun hsend => ?_) ?_ ?_ ?_
      · cases hsend
        exact ⟨by linarith, hlt⟩
      · change sends + 1 ≤ l.i + (_ + 1)
        linarith
      · change (conns + 0) * size ≤ l.i + size
        linarith
      · change (calls + 1) * size ≤ l.i * (size + 5) + (3 + (_ + 1)) * size
        linarith
    | false =>
      refine hquiet hphase Phase.noConfusion Phase.noConfusion (fun hsend => by cases hsend)
        (le_of_lt hlt) (le_refl _) ?_
      change 3 + _ + 1 ≤ size + 4
      linarith
  | leave hphase hmore =>
    have hle := (h.inside hphase).2
    refine hquiet hphase Phase.noConfusion Phase.noConfusion (fun hsend => by cases hsend)
      hle (le_refl _) ?_
    change 3 + _ + 1 ≤ size + 4
    linarith
  | close hphase =>
    refine hend hphase Phase.noConfusion (le_refl _) (le_refl _) ?_
    change size + 4 + 1 ≤ size + 5
    linarith

theorem exactly_endSession (hstarts : Starts size total l.i) (hsends : sends = l.i + size)
    (hconns : conns * size = l.i + size) : Exactly size total (endSession b l) sends conns := by
  obtain ⟨hbase, hphase, _⟩ := endSession_cases r hstarts
  have hzero : (endSession b l).phase.sent size = 0 ∧
      (endSession b l).phase.connected size = 0 := by
    rcases hphase with hphase | hphase <;> rw [hphase] <;> exact ⟨rfl, rfl⟩
  constructor
  · rw [hbase, hzero.1, add_zero]
    exact hsends
  · rw [hbase, hzero.2, add_zero]
    exact hconns

theorem Exactly.step (h : Exactly size total l sends conns) {sends' conns' : Int}
    (hwithin : Within size total l sends' conns' calls) {sockets sockets' : Finset Fd} {a : Answer}
    (hmoved : Moved b sockets l a l' sockets') (hok : a.ok = true) :
    Exactly size total l' (sends + a.sends) (conns + a.connects) := by
  have hsends := h.sends
  have hconns := h.conns
  have hplace : ∀ {phase}, l.phase = phase → phase ≠ .exited →
      sends = l.i + phase.sent size ∧ conns * size = l.i + phase.connected size := by
    rintro _ rfl halive
    rw [base_eq rfl halive] at hsends hconns
    exact ⟨hsends, hconns⟩
  have hphase : ∀ {phase : Phase}, phase ≠ .exited → ∀ {sends conns : Int},
      sends = l.i + phase.sent size → conns * size = l.i + phase.connected size →
      Exactly size total { l with phase := phase } sends conns := by
    intro phase halive sends conns hsends hconns
    have hbase : Local.base total { l with phase := phase } = l.i := base_eq rfl halive
    constructor <;> rw [hbase]
    · exact hsends
    · exact hconns
  have hquiet : ∀ {phase phase' : Phase}, l.phase = phase → phase ≠ .exited → phase' ≠ .exited →
      phase.sent size = phase'.sent size → phase.connected size = phase'.connected size →
      Exactly size total { l with phase := phase' } (sends + 0) (conns + 0) := by
    intro phase phase' hold halive halive' hsent hconnected
    obtain ⟨hsends, hconns⟩ := hplace hold halive
    rw [add_zero, add_zero]
    exact hphase halive' (hsent ▸ hsends) (hconnected ▸ hconns)
  cases hmoved with
  | noSocket hold => cases hok
  | opened hold hnew => exact hquiet hold Phase.noConfusion Phase.noConfusion rfl rfl
  | inetPton hold ok =>
    cases hok
    exact hquiet hold Phase.noConfusion Phase.noConfusion rfl rfl
  | connect hold ok =>
    cases hok
    obtain ⟨hsends, hconns⟩ := hplace hold Phase.noConfusion
    rw [Phase.sent] at hsends
    rw [Phase.connected] at hconns
    apply hphase Phase.noConfusion
    · change sends + 0 = l.i + 0
      linarith
    · change (conns + 1) * size = l.i + size
      linarith
  | send hold hmore ok =>
    cases hok
    obtain ⟨hsends, hconns⟩ := hplace hold Phase.noConfusion
    rw [Phase.sent] at hsends
    rw [Phase.connected] at hconns
    apply hphase Phase.noConfusion
    · change sends + 1 = l.i + (_ + 1)
      linarith
    · change (conns + 0) * size = l.i + size
      linarith
  | leave hold hmore =>
    -- The loop is left where the condition fails, which is behind the last message.
    have hstarts := hwithin.starts (by rw [hold]; exact Phase.noConfusion)
    have hle := (hwithin.inside hold).2
    have hge : ¬_ < size := fun hlt => by
      rw [(r.more_iff hstarts.2.2).mpr hlt] at hmore
      cases hmore
    exact hquiet hold Phase.noConfusion Phase.noConfusion (le_antisymm hle (not_lt.mp hge)) rfl
  | close hold =>
    have hstarts := hwithin.starts (by rw [hold]; exact Phase.noConfusion)
    obtain ⟨hsends, hconns⟩ := hplace hold Phase.noConfusion
    apply exactly_endSession r hstarts
    · exact (add_zero sends).trans hsends
    · change (conns + 0) * size = _
      rw [add_zero]
      exact hconns

theorem within_start : Within size total ⟨0, .socket⟩ 0 0 0 where
  starts _ := r.first
  inside hsend := by cases hsend
  sends := le_refl 0
  conns := Int.le_of_eq (Int.zero_mul size)
  calls := by
    change 0 * size ≤ 0 * (size + 5) + 0 * size
    linarith

omit r in
theorem exactly_start : Exactly size total ⟨0, .socket⟩ 0 0 where
  sends := rfl
  conns := Int.zero_mul size

theorem Within.bounds (h : Within size total l sends conns calls) :
    sends ≤ total ∧ conns * size ≤ total ∧ calls * size ≤ total * (size + 5) := by
  have hpos := r.pos
  have hsends := h.sends
  have hconns := h.conns
  have hcalls := h.calls
  have hplace : ∀ {phase}, l.phase = phase → phase ≠ .exited → phase.sent size ≤ size →
      phase.connected size ≤ size → phase.made size ≤ size + 5 →
      sends ≤ total ∧ conns * size ≤ total ∧ calls * size ≤ total * (size + 5) := by
    rintro _ rfl halive hsent hconnected hmade
    rw [base_eq rfl halive] at hsends hconns hcalls
    have hroom := (h.starts halive).2.2
    have hmade := mul_le_mul_of_nonneg_right hmade (le_of_lt hpos)
    refine ⟨by linarith, by linarith, ?_⟩
    calc
      calls * size ≤ (l.i + size) * (size + 5) := by linarith
      _ ≤ total * (size + 5) := mul_le_mul_of_nonneg_right hroom (by linarith)
  cases hphase : l.phase with
  | socket | inetPton sock | connect sock =>
    refine hplace hphase Phase.noConfusion (le_of_lt hpos) (le_of_lt hpos) ?_
    rw [Phase.made]
    linarith
  | send sock j =>
    have hle := (h.inside hphase).2
    refine hplace hphase Phase.noConfusion hle (le_refl _) ?_
    rw [Phase.made]
    linarith
  | close sock =>
    refine hplace hphase Phase.noConfusion (le_refl _) (le_refl _) ?_
    rw [Phase.made]
    linarith
  | exited =>
    have hbase : l.base total = total := if_pos hphase
    rw [hbase, hphase] at hsends hconns hcalls
    rw [Phase.sent] at hsends
    rw [Phase.connected] at hconns
    rw [Phase.made] at hcalls
    exact ⟨by linarith, by linarith, by linarith⟩

end Sessions

/-! ## Both threads -/

theorem sessions_persistent : Sessions persistentConnection numMessages numMessages where
  pos := by decide
  first := ⟨by decide, Int.dvd_zero _, by decide⟩
  more_iff _ := decide_eq_true_iff
  next_none hstarts _ := by
    obtain ⟨hlow, _, hhigh⟩ := hstarts
    linarith
  next_some _ hnext := by cases hnext

theorem sessions_frequent : Sessions frequentConnection batchSize numMessages where
  pos := by decide
  first := ⟨by decide, Int.dvd_zero _, by decide⟩
  more_iff {i j} hroom := by
    rw [frequentConnection, decide_eq_true_iff]
    exact ⟨And.left, fun hlt => ⟨hlt, by linarith⟩⟩
  next_none {i} hstarts hnext := by
    obtain ⟨_, _, hroom⟩ := hstarts
    rw [frequentConnection, ite_eq_right_iff] at hnext
    by_contra hne
    exact Option.some_ne_none _ (hnext (lt_of_le_of_ne hroom hne))
  next_some {i i'} hstarts hnext := by
    obtain ⟨hlow, hdvd, hroom⟩ := hstarts
    rw [frequentConnection, Option.ite_none_right_eq_some, Option.some_inj] at hnext
    obtain ⟨hlt, rfl⟩ := hnext
    refine ⟨rfl, ?_, Int.dvd_add hdvd (Int.dvd_refl _), ?_⟩
    · linarith [show 0 < batchSize by decide]
    · rw [batchSize, numMessages] at *
      omega

def sessionSize : Thread → Int
  | .persistent => numMessages
  | .frequent => batchSize

theorem sessions (t : Thread) : Sessions (behaviour t) (sessionSize t) numMessages := by
  cases t with
  | persistent => exact sessions_persistent
  | frequent => exact sessions_frequent

def tally (f : Answer → Nat) (t : Thread) (inputs : List (Thread × Answer)) : Nat :=
  ((inputs.filter fun input => input.1 = t).map fun input => f input.2).sum

theorem tally_snoc (f : Answer → Nat) (t : Thread) (inputs : List (Thread × Answer))
    (input : Thread × Answer) :
    tally f t (inputs ++ [input]) = tally f t inputs + if input.1 = t then f input.2 else 0 := by
  rw [tally, List.filter_append, List.map_append, List.sum_append, ← tally]
  congr 1
  split
  · rename_i hsame
    simp [hsame]
  · rename_i hother
    simp [hother]

theorem length_eq_tally (inputs : List (Thread × Answer)) : inputs.length =
    tally (fun _ => 1) .persistent inputs + tally (fun _ => 1) .frequent inputs := by
  induction inputs using List.reverseRecOn with
  | nil => rfl
  | append_singleton inputs input ih =>
    rw [List.length_append, tally_snoc, tally_snoc, ih, List.length_singleton]
    cases input.1 with
    | persistent =>
      rw [if_pos rfl, if_neg Thread.noConfusion]
      omega
    | frequent =>
      rw [if_neg Thread.noConfusion, if_pos rfl]
      omega

structure Sound (s : State) (inputs : List (Thread × Answer)) : Prop where
  owned : Owned s.sockets s.held
  within : ∀ t, Within (sessionSize t) numMessages (s.thread t) (tally Answer.sends t inputs)
    (tally Answer.connects t inputs) (tally (fun _ => 1) t inputs)
  exactly : (∀ input ∈ inputs, input.2.ok = true) → ∀ t,
    Exactly (sessionSize t) numMessages (s.thread t) (tally Answer.sends t inputs)
      (tally Answer.connects t inputs)

theorem sound_initial : Sound initial [] where
  owned := Owned.none
  within t := within_start (sessions t)
  exactly _ _ := exactly_start

theorem Sound.step {s : State} {inputs : List (Thread × Answer)} (h : Sound s inputs)
    {input : Thread × Answer} (hp : Permitted s input) :
    Sound (step s input) (inputs ++ [input]) := by
  obtain ⟨t, a⟩ := input
  have hmoved : Moved (behaviour t) s.sockets (s.thread t) a _ _ := moved_of_fits hp
  refine ⟨owned_step h.owned hp, fun t' => ?_, fun hok t' => ?_⟩
  · rw [tally_snoc, tally_snoc, tally_snoc]
    change Within _ _ (Function.update s.thread t _ t') _ _ _
    rcases eq_or_ne t' t with rfl | hne
    · rw [Function.update_self, if_pos rfl, if_pos rfl, if_pos rfl]
      exact (h.within t').step (sessions t') hmoved
    · rw [Function.update_of_ne hne, if_neg hne.symm, if_neg hne.symm, if_neg hne.symm]
      exact h.within t'
  · have hall : ∀ input ∈ inputs, input.2.ok = true :=
      fun input hinput => hok input (List.mem_append_left _ hinput)
    have hlast : a.ok = true := hok (t, a) (List.mem_append_right _ List.mem_cons_self)
    rw [tally_snoc, tally_snoc]
    change Exactly _ _ (Function.update s.thread t _ t') _ _
    rcases eq_or_ne t' t with rfl | hne
    · rw [Function.update_self, if_pos rfl, if_pos rfl]
      exact (h.exactly hall t').step (sessions t') (h.within t') hmoved hlast
    · rw [Function.update_of_ne hne, if_neg hne.symm, if_neg hne.symm]
      exact h.exactly hall t'

theorem sound_final (x : Run) : Sound x.final x.inputs := by
  apply x.history_induction (P := fun is => Sound (run ClientExp2.step x.start is) is)
  · rw [x.begins]
    exact sound_initial
  · intro is input _ hp ih
    rw [run_snoc]
    exact ih.step hp

/-- The connections that a thread opens if no call fails. -/
def connections : Thread → Nat
  | .persistent => 1
  | .frequent => 10

theorem sessionSize_mul (t : Thread) : connections t * sessionSize t = numMessages := by
  cases t <;> rfl

/-- The calls of a thread, those that end its send loops included. -/
def calls : Thread → Nat
  | .persistent => 10005
  | .frequent => 10050

theorem sends_le {x : Run} (h : Sound x.final x.inputs) (t : Thread) :
    (tally Answer.sends t x.inputs : Int) ≤ numMessages :=
  ((h.within t).bounds (sessions t)).1

theorem connects_le {x : Run} (h : Sound x.final x.inputs) (t : Thread) :
    tally Answer.connects t x.inputs ≤ connections t := by
  have hconns := ((h.within t).bounds (sessions t)).2.1
  rw [← sessionSize_mul t] at hconns
  exact Int.ofNat_le.mp (le_of_mul_le_mul_right hconns (sessions t).pos)

theorem calls_le {x : Run} (h : Sound x.final x.inputs) (t : Thread) :
    tally (fun _ => 1) t x.inputs ≤ calls t := by
  have hcalls := ((h.within t).bounds (sessions t)).2.2
  cases t with
  | persistent =>
    rw [sessionSize, numMessages] at hcalls
    rw [calls]
    omega
  | frequent =>
    rw [sessionSize, numMessages, batchSize] at hcalls
    rw [calls]
    omega

theorem held_exited {s : State} {t : Thread} (hexited : (s.thread t).phase = .exited) :
    s.held t = none := by
  rw [State.held, hexited]
  rfl

theorem sockets_exited {s : State} {inputs : List (Thread × Answer)} (h : Sound s inputs)
    (hexited : ∀ t, (s.thread t).phase = .exited) : s.sockets = ∅ := by
  apply Finset.eq_empty_of_forall_notMem
  intro fd hmem
  obtain ⟨t, ht⟩ := (h.owned.mem_iff fd).mp hmem
  rw [held_exited (hexited t)] at ht
  cases ht

theorem exactly_exited {x : Run} (h : Sound x.final x.inputs)
    (hok : ∀ input ∈ x.inputs, input.2.ok = true) {t : Thread}
    (hexited : (x.final.thread t).phase = .exited) :
    (tally Answer.sends t x.inputs : Int) = numMessages ∧
      tally Answer.connects t x.inputs = connections t := by
  have hsends := (h.exactly hok t).sends
  have hconns := (h.exactly hok t).conns
  have hbase : (x.final.thread t).base numMessages = numMessages := if_pos hexited
  rw [hbase, hexited] at hsends hconns
  refine ⟨hsends.trans (add_zero _), ?_⟩
  rw [Phase.connected, add_zero, ← sessionSize_mul t] at hconns
  exact Int.ofNat_inj.mp (mul_right_cancel₀ (sessions t).pos.ne' hconns)

/-- A thread that has not exited always has a call to make. -/
theorem exists_permitted (s : State) {t : Thread} (halive : (s.thread t).phase ≠ .exited) :
    ∃ a, Permitted s (t, a) := by
  simp only [Permitted, Fits]
  cases hphase : (s.thread t).phase with
  | socket => exact ⟨.socket none, fun _ hfd => by cases hfd⟩
  | inetPton sock => exact ⟨.inetPton true, trivial⟩
  | connect sock => exact ⟨.connect true, trivial⟩
  | send sock j =>
    cases hmore : (behaviour t).more (s.thread t).i j with
    | true => exact ⟨.send true, hmore⟩
    | false => exact ⟨.leave, hmore⟩
  | close sock => exact ⟨.close, trivial⟩
  | exited => exact absurd hphase halive

/-- However the calls of the two threads follow one another and whichever fail, each thread
works with a descriptor of its own and sends at most its messages over at most its
connections. The calls come to an end, with everything closed, and if none has failed every
message has been sent. -/
theorem threads_keep_apart (x : Run) :
    (∀ fd, fd ∈ x.final.sockets ↔ ∃ t, x.final.held t = some fd) ∧
    (∀ t t' fd, x.final.held t = some fd → x.final.held t' = some fd → t = t') ∧
    (∀ t, (tally Answer.sends t x.inputs : Int) ≤ numMessages ∧
      tally Answer.connects t x.inputs ≤ connections t) ∧
    x.inputs.length ≤ 20055 ∧
    (∀ t, (x.final.thread t).phase ≠ .exited → ∃ a, Permitted x.final (t, a)) ∧
    ((∀ t, (x.final.thread t).phase = .exited) → x.final.sockets = ∅ ∧
      ((∀ input ∈ x.inputs, input.2.ok = true) → ∀ t,
        (tally Answer.sends t x.inputs : Int) = numMessages ∧
          tally Answer.connects t x.inputs = connections t)) := by
  have h := sound_final x
  refine ⟨h.owned.mem_iff, fun _ _ _ => h.owned.apart, fun t => ⟨sends_le h t, connects_le h t⟩,
    ?_, fun _ => exists_permitted x.final, fun hexited => ⟨sockets_exited h hexited,
      fun hok t => exactly_exited h hok (hexited t)⟩⟩
  have hpersistent : tally (fun _ => 1) .persistent x.inputs ≤ 10005 := calls_le h _
  have hfrequent : tally (fun _ => 1) .frequent x.inputs ≤ 10050 := calls_le h _
  rw [length_eq_tally]
  omega

end ConnectionOrder.ClientExp2
