import ConnectionOrder.Exp1.Client8
import ConnectionOrder.Exp1.Codec
import ConnectionOrder.Exp1.CommonBuffer
import ConnectionOrder.Interleaving

/-!
# client, with server

One thread with four connections, which are connected and written to in an order fixed by
main. The server counts the connections in the order in which they are connected.
-/

namespace ConnectionOrder.Client

open Machine CStrings Scan Interleaving
open CommonBuffer (readSize commonSize)
open Client8 (snprintf)
open Codec (Plain plain_decimal)

inductive Sock where
  | sock1
  | sock2
  | sock3
  | sock4
deriving DecidableEq

def messageSize : Nat := 32

/-- A call of main that may end the program, or that the network sees. -/
inductive Call where
  | socket (sock : Sock)
  | connect (sock : Sock)
  | sendPacket (sock : Sock) (label : List Char) (num : Int)
  | close (sock : Sock)

def tcp1 : List Char := "client 1: TCP1 ".toList

def tcp2 : List Char := "client 1: TCP2 ".toList

def tcp2' : List Char := "client 1:  TCP2".toList

def tcp3 : List Char := "client 1:  TCP3".toList

def tcp4 : List Char := "client 1:  TCP4".toList

def main : List Call :=
  [.socket .sock1, .socket .sock2, .socket .sock3, .socket .sock4,
    .connect .sock1, .connect .sock2, .connect .sock3, .connect .sock4,
    .sendPacket .sock1 tcp1 1, .sendPacket .sock1 tcp1 2,
    .sendPacket .sock2 tcp2 1, .sendPacket .sock2 tcp2 2,
    .sendPacket .sock1 tcp1 3, .sendPacket .sock1 tcp1 4,
    .sendPacket .sock2 tcp2' 3, .sendPacket .sock2 tcp2' 4,
    .sendPacket .sock3 tcp3 1, .sendPacket .sock3 tcp3 2,
    .sendPacket .sock4 tcp4 1, .sendPacket .sock4 tcp4 2,
    .sendPacket .sock3 tcp3 3, .sendPacket .sock3 tcp3 4,
    .sendPacket .sock4 tcp4 3, .sendPacket .sock4 tcp4 4,
    .close .sock1, .close .sock2, .close .sock3, .close .sock4]

/-- "%s-%d\n" -/
def message (label : List Char) (num : Int) : List Char :=
  snprintf messageSize (label ++ ['-'] ++ decimal num ++ ['\n'])

/-- The number that the server's side has for a connection. -/
def number : Sock → Nat
  | .sock1 => 1
  | .sock2 => 2
  | .sock3 => 3
  | .sock4 => 4

def tag (conn : Nat) (bytes : List UInt8) : List (Nat × UInt8) := bytes.map fun b => (conn, b)

/-- What a call gives to the network. -/
def Call.bytes : Call → List (Nat × UInt8)
  | .sendPacket sock label num => tag (number sock) ((message label num).map Char.toUInt8)
  | .socket _ | .connect _ | .close _ => []

def sent (calls : List Call) : List (Nat × UInt8) := calls.flatMap Call.bytes

/-- `calls` are what is left of main, `established` the connections so far, `ended` those that
the client has closed, `given` what has been sent and `taken` what the server has read. -/
structure State where
  server : CommonBuffer.State
  calls : List Call
  established : Nat
  ended : Nat → Bool
  given : List (Nat × UInt8)
  taken : List (Nat × UInt8)

inductive Input where
  | client (succeeds : Bool)
  | server (input : CommonBuffer.Input)

def start (serverFd : Fd) : State where
  server := CommonBuffer.start serverFd
  calls := main
  established := 0
  ended := fun _ => false
  given := []
  taken := []

/-- exit closes what is open. -/
def exit (s : State) : State := { s with calls := [], ended := fun _ => true }

/-- What send returns is not looked at. -/
def clientStep (s : State) (succeeds : Bool) : State :=
  match s.calls with
  | [] => s
  | .socket _ :: calls => if succeeds then { s with calls := calls } else exit s
  | .connect _ :: calls =>
    if succeeds then { s with calls := calls, established := s.established + 1 } else exit s
  | .sendPacket sock label num :: calls =>
    { s with
      calls := calls
      given := if succeeds then s.given ++ (Call.sendPacket sock label num).bytes else s.given }
  | .close sock :: calls =>
    { s with calls := calls, ended := Function.update s.ended (number sock) true }

def State.reading (s : State) : Option Nat := s.server.pending.head?.map s.server.kernel.conn

def State.unread (s : State) (conn : Nat) : List (Nat × UInt8) :=
  Interleaving.unread Prod.fst s.taken s.given conn

def bytesRead (s : State) : CommonBuffer.Input → List (Nat × UInt8)
  | .read (.data chunk) => (s.reading.map fun conn => tag conn chunk.bytes).getD []
  | .read _ | .wait _ | .accept _ | .main | .printer => []

def act (s : State) : Input → Option State
  | .client succeeds => some (clientStep s succeeds)
  | .server input => (CommonBuffer.act s.server input).map fun server =>
    { s with server := server, taken := s.taken ++ bytesRead s input }

def step (s : Option State) (i : Input) : Option State := s.bind fun s => act s i

/-! ## What the environment may do -/

/-- epoll_wait reports what can be accepted or read. -/
def Ready (s : State) (fd : Fd) : Prop :=
  if fd = s.server.serverFd then s.server.kernel.accepted < s.established
  else s.unread (s.server.kernel.conn fd) ≠ [] ∨ s.ended (s.server.kernel.conn fd) = true

/-- read returns the next bytes of the connection, as many as it likes. -/
def Delivers (s : State) (conn : Nat) : Recv readSize → Prop
  | .data chunk => tag conn chunk.bytes <+: s.unread conn
  | .eof => s.unread conn = [] ∧ s.ended conn = true
  | .again => s.unread conn = []
  | .error => True

def Network (s : State) : CommonBuffer.Input → Prop
  | .wait batch => ∀ fds ∈ batch, ∀ fd ∈ fds, Ready s fd
  | .accept clientFd => ∀ _ ∈ clientFd, s.server.kernel.accepted < s.established
  | .read received => ∀ conn ∈ s.reading, Delivers s conn received
  | .main | .printer => True

def Allowed (s : State) : Input → Prop
  | .client _ => s.calls ≠ []
  | .server input => CommonBuffer.Allowed s.server input ∧ Network s input

def Permitted (s : Option State) (i : Input) : Prop := ∃ s' ∈ s, Allowed s' i

def Initial (s : Option State) : Prop := ∃ serverFd, s = some (start serverFd)

abbrev Run := Execution step Initial Permitted

/-! ## What is sent -/

theorem length_message (label : List Char) (num : Int) :
    (message label num).length < messageSize := by
  have hle : (message label num).length ≤ messageSize - 1 := List.length_take_le _ _
  exact Nat.lt_of_le_of_lt hle (by decide)

theorem length_bytes (call : Call) : call.bytes.length ≤ messageSize := by
  cases call with
  | sendPacket sock label num =>
    rw [Call.bytes, tag, List.length_map, List.length_map]
    exact Nat.le_of_lt (length_message label num)
  | socket | connect | close => exact Nat.zero_le _

/-- The label has no character that would end the string. -/
def Call.Labelled : Call → Prop
  | .sendPacket _ label _ => ∀ c ∈ label, Plain c
  | .socket _ | .connect _ | .close _ => True

instance : (call : Call) → Decidable call.Labelled
  | .sendPacket _ label _ => inferInstanceAs (Decidable (∀ c ∈ label, Plain c))
  | .socket _ | .connect _ | .close _ => .isTrue trivial

theorem labelled_main : ∀ call ∈ main, call.Labelled := by decide

theorem bytes_ne_zero {call : Call} (h : call.Labelled) : ∀ a ∈ call.bytes, a.2 ≠ 0 := by
  have hends : '-'.toUInt8 ≠ 0 ∧ '\n'.toUInt8 ≠ 0 := by decide
  cases call with
  | sendPacket sock label num =>
    intro a ha
    obtain ⟨b, hb, rfl⟩ := List.mem_map.mp ha
    obtain ⟨c, hc, rfl⟩ := List.mem_map.mp hb
    rcases List.mem_append.mp (List.mem_of_mem_take hc) with hc | hc
    · rcases List.mem_append.mp hc with hc | hc
      · rcases List.mem_append.mp hc with hc | hc
        · exact (h c hc).toUInt8_ne.2
        · rw [List.mem_singleton.mp hc]
          exact hends.1
      · exact (plain_decimal c hc).toUInt8_ne.2
    · rw [List.mem_singleton.mp hc]
      exact hends.2
  | socket | connect | close => exact fun _ ha => absurd ha List.not_mem_nil

/-! ## The invariant -/

structure Sound (s : State) : Prop where
  server : ∃ read, CommonBuffer.Sound s.server read ∧ read.flatten = s.taken.map Prod.snd
  merges : Merges Prod.fst s.taken s.given
  calls : s.calls <:+ main
  bound : s.given.length + messageSize * s.calls.length ≤ messageSize * main.length
  plain : ∀ a ∈ s.given, a.2 ≠ 0

variable {s : State}

theorem sound_start (serverFd : Fd) : Sound (start serverFd) where
  server := ⟨[], CommonBuffer.sound_start serverFd, rfl⟩
  merges := merges_nil _
  calls := List.suffix_refl main
  bound := Nat.le_of_eq (Nat.zero_add _)
  plain _ ha := absurd ha List.not_mem_nil

theorem Sound.call (h : Sound s) {call : Call} {calls : List Call}
    (hcalls : s.calls = call :: calls) {given : List (Nat × UInt8)}
    (hgiven : given = s.given ++ call.bytes ∨ given = s.given) (established : Nat)
    (ended : Nat → Bool) :
    Sound { s with
      calls := calls, established := established, ended := ended, given := given } := by
  have hlabelled := labelled_main call (h.calls.subset (hcalls ▸ List.mem_cons_self))
  have hbound := h.bound
  rw [hcalls, List.length_cons, Nat.mul_succ] at hbound
  have hsuffix : calls <:+ main := (List.suffix_cons call calls).trans (hcalls ▸ h.calls)
  rcases hgiven with rfl | rfl
  · refine ⟨h.server, h.merges.give _, hsuffix, ?_, ?_⟩
    · have hlength := length_bytes call
      dsimp only
      rw [List.length_append]
      omega
    · intro a ha
      rcases List.mem_append.mp ha with ha | ha
      · exact h.plain a ha
      · exact bytes_ne_zero hlabelled a ha
  · refine ⟨h.server, h.merges, hsuffix, ?_, h.plain⟩
    dsimp only
    omega

theorem Sound.exit (h : Sound s) : Sound (exit s) where
  server := h.server
  merges := h.merges
  calls := List.nil_suffix
  bound := Nat.le_trans (Nat.le_add_right _ _) h.bound
  plain := h.plain

theorem Sound.client (h : Sound s) (succeeds : Bool) : Sound (clientStep s succeeds) := by
  rw [clientStep]
  cases hcalls : s.calls with
  | nil => exact h
  | cons call calls =>
    cases call with
    | socket sock | connect sock =>
      dsimp only
      split
      · exact h.call hcalls (.inr rfl) _ _
      · exact h.exit
    | sendPacket sock label num =>
      dsimp only
      split
      · exact h.call hcalls (.inl rfl) _ _
      · exact h.call hcalls (.inr rfl) _ _
    | close sock => exact h.call hcalls (.inr rfl) _ _

theorem Sound.deliver (h : Sound s) {conn : Nat} {chunk : Chunk readSize}
    (hchunk : tag conn chunk.bytes <+: s.unread conn) :
    Merges Prod.fst (s.taken ++ tag conn chunk.bytes) s.given ∧
      text 0 chunk.bytes = (tag conn chunk.bytes).map Prod.snd := by
  have hbytes : (tag conn chunk.bytes).map Prod.snd = chunk.bytes := by
    rw [tag, List.map_map]
    exact List.map_id' _
  rw [hbytes]
  constructor
  · rw [List.prefix_iff_eq_take.mp hchunk]
    exact h.merges.take conn _
  · apply text_eq_self
    intro hnul
    rw [← hbytes] at hnul
    obtain ⟨a, ha, hzero⟩ := List.mem_map.mp hnul
    have hgiven := (mem_lane.mp (List.mem_of_mem_drop (hchunk.subset ha))).1
    exact h.plain a hgiven hzero

theorem Sound.taken (h : Sound s) {input : CommonBuffer.Input}
    (hp : Allowed s (.server input)) :
    Merges Prod.fst (s.taken ++ bytesRead s input) s.given ∧
      (CommonBuffer.reads (some s.server) input).flatten = (bytesRead s input).map Prod.snd := by
  have hnone : Merges Prod.fst (s.taken ++ []) s.given := (List.append_nil s.taken).symm ▸ h.merges
  obtain ⟨⟨_, hallowed⟩, hnetwork⟩ := hp
  cases input with
  | wait batch | accept clientFd | main | printer => exact ⟨hnone, rfl⟩
  | read received =>
    cases received with
    | eof | again | error => exact ⟨hnone, rfl⟩
    | data chunk =>
      obtain ⟨_, fd, hfd, _⟩ := hallowed
      have hreading : s.reading = some (s.server.kernel.conn fd) :=
        congrArg (Option.map s.server.kernel.conn) hfd
      obtain ⟨hmerges, htext⟩ := h.deliver (hnetwork _ hreading)
      rw [bytesRead, hreading, CommonBuffer.reads, List.flatten_singleton]
      exact ⟨hmerges, htext⟩

theorem Sound.act (h : Sound s) {i : Input} (hp : Allowed s i) :
    ∃ s', act s i = some s' ∧ Sound s' := by
  cases i with
  | client succeeds => exact ⟨_, rfl, h.client succeeds⟩
  | server input =>
    obtain ⟨read, hsound, hread⟩ := h.server
    obtain ⟨server, hact, hnext⟩ := hsound.act hp.1
    obtain ⟨hmerges, hreads⟩ := h.taken hp
    refine ⟨{ s with server := server, taken := s.taken ++ bytesRead s input }, ?_, ⟨_, hnext, ?_⟩,
      hmerges, h.calls, h.bound, h.plain⟩
    · rw [Client.act, hact]
      rfl
    · rw [List.flatten_append, hread, hreads, List.map_append]

theorem sound_final (x : Run) : ∃ s, x.final = some s ∧ Sound s := by
  have hall := x.invariant (P := fun s => ∃ s' ∈ s, Sound s') ?_ ?_
  · exact hall.final
  · rintro s ⟨serverFd, rfl⟩
    exact ⟨_, rfl, sound_start serverFd⟩
  · rintro _ i ⟨s, rfl, hp⟩ ⟨_, hs, hsound⟩
    cases hs
    exact hsound.act hp

/-! ## Where the bytes end up -/

/-- The buffer and the output have the bytes that were read, and nothing is lost. -/
structure Merged (s : State) : Prop where
  merges : Merges Prod.fst s.taken s.given
  settled : s.server.main = .loop →
    text 0 s.server.commonBuffer = s.taken.map Prod.snd
  printed : ∀ out ∈ s.server.printed, out <+: s.taken.map Prod.snd

theorem Sound.length_taken (h : Sound s) : s.taken.length < commonSize := by
  have hlength := h.merges.length_le
  have hbound := h.bound
  have hsize : messageSize * main.length < commonSize := by decide
  omega

theorem Sound.merged (h : Sound s) : Merged s := by
  obtain ⟨read, hsound, hread⟩ := h.server
  have hshows := hsound.shows
  have hlength := h.length_taken
  refine ⟨h.merges, fun hloop => ?_, fun out hout => ?_⟩
  · rw [hshows.settled hloop, hread, List.take_of_length_le]
    rw [List.length_map]
    exact Nat.le_sub_one_of_lt hlength
  · obtain ⟨moments, _, _, hprinted⟩ := hshows.printed
    rw [hprinted] at hout
    obtain ⟨j, _, rfl⟩ := List.mem_map.mp hout
    rw [← hread]
    refine (List.take_prefix _ _).trans ?_
    conv_rhs => rw [← List.take_append_drop j read, List.flatten_append]
    exact List.prefix_append _ _

/-! ## Every order happens -/

def Reachable (s : State) : Prop := ∃ x : Run, x.final = some s

namespace Reachable

theorem sound (h : Reachable s) : Sound s := by
  obtain ⟨x, hx⟩ := h
  obtain ⟨_, hs, hsound⟩ := sound_final x
  rw [hx] at hs
  cases hs
  exact hsound

theorem step {s' : State} (h : Reachable s) {i : Input} (hp : Allowed s i)
    (hact : act s i = some s') : Reachable s' := by
  obtain ⟨x, hx⟩ := h
  have hpermitted : Permitted x.final i := ⟨s, hx, hp⟩
  refine ⟨x.snoc i hpermitted, ?_⟩
  rw [Execution.snoc_final, hx]
  exact hact

theorem quiet (h : Reachable s) (input : CommonBuffer.Input)
    (hp : Allowed s (.server input)) (hread : bytesRead s input = [])
    {server : CommonBuffer.State} (hact : CommonBuffer.act s.server input = some server) :
    Reachable { s with server := server } := by
  apply h.step hp
  rw [act, hact, hread, List.append_nil]
  rfl

end Reachable

def Call.connects : Call → Nat
  | .connect _ => 1
  | .socket _ | .sendPacket .. | .close _ => 0

theorem Reachable.calls (h : Reachable s) : ∃ ended, Reachable { s with
    calls := [], established := s.established + (s.calls.map Call.connects).sum, ended := ended,
    given := s.given ++ sent s.calls } := by
  generalize hcalls : s.calls = calls
  induction calls generalizing s with
  | nil =>
    refine ⟨s.ended, ?_⟩
    rw [sent, List.flatMap_nil, List.append_nil, List.map_nil, List.sum_nil, Nat.add_zero, ← hcalls]
    exact h
  | cons call calls ih =>
    have hnext : Reachable (clientStep s true) := by
      refine h.step (i := .client true) ?_ rfl
      rw [Allowed, hcalls]
      exact List.cons_ne_nil _ _
    have hcall : ∃ ended, clientStep s true = { s with
        calls := calls, established := s.established + call.connects, ended := ended,
        given := s.given ++ call.bytes } := by
      rw [clientStep, hcalls]
      cases call with
      | socket sock | connect sock =>
        refine ⟨s.ended, ?_⟩
        rw [Call.bytes, List.append_nil]
        rfl
      | sendPacket sock label num => exact ⟨s.ended, rfl⟩
      | close sock =>
        refine ⟨Function.update s.ended (number sock) true, ?_⟩
        rw [Call.bytes, List.append_nil]
        rfl
    obtain ⟨ended, hcall⟩ := hcall
    rw [hcall] at hnext
    obtain ⟨ended, hrest⟩ := ih hnext rfl
    refine ⟨ended, ?_⟩
    rw [List.map_cons, List.sum_cons, sent, List.flatMap_cons, ← Nat.add_assoc, ← List.append_assoc]
    exact hrest

theorem Reachable.finish (h : Reachable s) (hexited : s.server.exited = false)
    (hprinter : s.server.printer = .sleep) : ∃ holder commonBuffer, Reachable { s with
      server := { s.server with
        main := .loop, holder := holder, commonBuffer := commonBuffer } } := by
  induction hturns : s.server.turns using Nat.strongRecOn generalizing s with
  | ind turns ih =>
    subst hturns
    by_cases hloop : s.server.main = .loop
    · refine ⟨s.server.holder, s.server.commonBuffer, ?_⟩
      rw [← hloop]
      exact h
    · obtain ⟨read, hsound, _⟩ := h.sound.server
      have hfree : ∀ buffer, s.server.main = .lock buffer → s.server.holder = none := by
        intro buffer hlock
        exact hsound.holder_eq_none (by rw [hlock]; rfl) (by rw [hprinter]; rfl)
      obtain ⟨main, holder, commonBuffer, hstep, hlt⟩ := hsound.turns_lt hloop hfree
      have hnext := h.quiet .main ⟨⟨hexited, hloop, hfree⟩, trivial⟩ rfl hstep
      obtain ⟨holder', commonBuffer', hrest⟩ := ih _ hlt hnext hexited hprinter rfl
      exact ⟨holder', commonBuffer', hrest⟩

/-- The client is done and the server waits for events, with `taken` already read. -/
structure Stage (s : State) (kernel : Kernel) (taken : List (Nat × UInt8)) : Prop where
  reachable : Reachable s
  exited : s.server.exited = false
  serverFd : s.server.serverFd = 3
  loop : s.server.main = .loop
  printer : s.server.printer = .sleep
  pending : s.server.pending = []
  kernel : s.server.kernel = kernel
  calls : s.calls = []
  established : s.established = 4
  given : s.given = sent main
  taken : s.taken = taken

variable {kernel : Kernel} {taken : List (Nat × UInt8)}

namespace Stage

theorem wait (h : Stage s kernel taken) {fd : Fd} (hregistered : fd ∈ kernel.registered)
    (hready : Ready s fd) :
    Reachable { s with server := { s.server with pending := [fd] } } := by
  have hroom : 1 ≤ CommonBuffer.maxEvents := by decide
  refine h.reachable.quiet (.wait (some [fd])) ⟨⟨h.exited, h.loop, h.pending, ?_⟩, ?_⟩ rfl rfl
  · intro fds hfds
    cases hfds
    refine ⟨hroom, List.nodup_singleton fd, fun other hother => ?_⟩
    rw [List.mem_singleton.mp hother, h.kernel]
    exact hregistered
  · intro fds hfds other hother
    cases hfds
    rw [List.mem_singleton.mp hother]
    exact hready

theorem accept (h : Stage s kernel taken) (fd : Fd) (haccepted : kernel.accepted < 4)
    (hregistered : 3 ∈ kernel.registered) (hserver : fd ≠ 3) (hnew : fd ∉ kernel.sockets) :
    ∃ s', Stage s' ((kernel.accept fd).add fd) taken := by
  have hwaiting : s.server.kernel.accepted < s.established := by
    rw [h.kernel, h.established]
    exact haccepted
  have hready : Ready s 3 := by
    rw [Ready, if_pos h.serverFd.symm]
    exact hwaiting
  have hwait := h.wait hregistered hready
  have hdispatch : CommonBuffer.Dispatches { s.server with pending := [3] } true :=
    ⟨h.loop, 3, rfl, decide_eq_true h.serverFd.symm⟩
  have haccept := hwait.quiet (.accept (some fd)) ⟨⟨h.exited, hdispatch, ?_⟩, ?_⟩ rfl rfl
  · refine ⟨_, haccept, h.exited, h.serverFd, h.loop, h.printer, rfl, ?_, h.calls, h.established,
      h.given, h.taken⟩
    change (s.server.kernel.accept fd).add fd = _
    rw [h.kernel]
  · intro other hother
    cases hother
    refine ⟨h.serverFd ▸ hserver, ?_⟩
    change fd ∉ s.server.kernel.sockets
    rw [h.kernel]
    exact hnew
  · exact fun _ _ => hwaiting

/-- The server reads one byte and appends it. -/
theorem read (h : Stage s kernel taken) {fd : Fd} {conn : Nat} (hserver : fd ≠ 3)
    (hregistered : fd ∈ kernel.registered) (hconn : kernel.conn fd = conn) {b : UInt8}
    {rest : List (Nat × UInt8)}
    (hunread : unread Prod.fst taken (sent main) conn = (conn, b) :: rest) :
    ∃ s', Stage s' kernel (taken ++ [(conn, b)]) := by
  subst hconn
  have hbytes : s.unread (kernel.conn fd) = (kernel.conn fd, b) :: rest := by
    rw [State.unread, h.taken, h.given]
    exact hunread
  have hclient : decide (fd = s.server.serverFd) = false :=
    decide_eq_false (h.serverFd.symm ▸ hserver)
  have hready : Ready s fd := by
    rw [Ready, if_neg (of_decide_eq_false hclient), h.kernel, hbytes]
    exact .inl (List.cons_ne_nil _ _)
  have hwait := h.wait hregistered hready
  have hsize : 1 ≤ readSize := by decide
  let chunk : Chunk readSize := ⟨[b], List.cons_ne_nil _ _, hsize⟩
  have hread := hwait.step (i := .server (.read (.data chunk)))
    ⟨⟨h.exited, h.loop, fd, rfl, hclient⟩, ?_⟩ rfl
  · obtain ⟨holder, commonBuffer, hfinish⟩ := hread.finish h.exited h.printer
    refine ⟨_, hfinish, h.exited, h.serverFd, rfl, h.printer, rfl, h.kernel, h.calls,
      h.established, h.given, ?_⟩
    change s.taken ++ [(s.server.kernel.conn fd, b)] = _
    rw [h.taken, h.kernel]
  · intro conn hconn
    cases hconn
    change [(s.server.kernel.conn fd, b)] <+: s.unread (s.server.kernel.conn fd)
    rw [h.kernel, hbytes]
    exact List.prefix_append [_] rest

end Stage

/-- The kernel once the four connections have been accepted at the next descriptors. -/
def accepted : Kernel :=
  [4, 5, 6, 7].foldl (fun kernel fd => (kernel.accept fd).add fd) (CommonBuffer.start 3).kernel

def fdOf : Sock → Fd
  | .sock1 => 4
  | .sock2 => 5
  | .sock3 => 6
  | .sock4 => 7

theorem fdOf_accepted (sock : Sock) : fdOf sock ≠ 3 ∧ fdOf sock ∈ accepted.registered ∧
    accepted.conn (fdOf sock) = number sock := by
  cases sock <;> decide

theorem stage_accepted : ∃ s, Stage s accepted [] := by
  have hstart : Reachable (start 3) := ⟨Execution.empty _ ⟨3, rfl⟩, rfl⟩
  obtain ⟨ended, hcalls⟩ := hstart.calls
  have h : Stage _ (CommonBuffer.start 3).kernel [] :=
    ⟨hcalls, rfl, rfl, rfl, rfl, rfl, rfl, rfl, rfl, rfl, rfl⟩
  obtain ⟨_, h⟩ := h.accept 4 (by decide) (by decide) (by decide) (by decide)
  obtain ⟨_, h⟩ := h.accept 5 (by decide) (by decide) (by decide) (by decide)
  obtain ⟨_, h⟩ := h.accept 6 (by decide) (by decide) (by decide) (by decide)
  exact h.accept 7 (by decide) (by decide) (by decide) (by decide)

theorem number_of_mem_sent {a : Nat × UInt8} (h : a ∈ sent main) : ∃ sock, a.1 = number sock := by
  obtain ⟨call, _, ha⟩ := List.mem_flatMap.mp h
  cases call with
  | sendPacket sock label num =>
    obtain ⟨b, _, rfl⟩ := List.mem_map.mp ha
    exact ⟨sock, rfl⟩
  | socket | connect | close => exact absurd ha List.not_mem_nil

/-- One connection's bytes in their order, for each connection. -/
def Interleaves (order : List (Nat × UInt8)) : Prop :=
  ∀ conn, lane Prod.fst conn order = lane Prod.fst conn (sent main)

theorem stage_interleaves {order : List (Nat × UInt8)} (h : Interleaves order) :
    ∃ s, Stage s accepted order := by
  have hall : ∀ taken rest, taken ++ rest = order → ∃ s, Stage s accepted taken := by
    intro taken
    induction taken using List.reverseRecOn with
    | nil => exact fun _ _ => stage_accepted
    | append_singleton taken a ih =>
      intro rest horder
      rw [← List.append_cons] at horder
      obtain ⟨s, hs⟩ := ih (a :: rest) horder
      have hlane := h a.1
      rw [← horder, lane_append] at hlane
      have hmem : a ∈ sent main := by
        refine (mem_lane.mp (hlane ▸ List.mem_append_right _ (mem_lane.mpr ⟨?_, rfl⟩))).1
        exact List.mem_cons_self
      obtain ⟨sock, hsock⟩ := number_of_mem_sent hmem
      obtain ⟨hserver, hregistered, hconn⟩ := fdOf_accepted sock
      have hunread : Interleaving.unread Prod.fst taken (sent main) a.1 =
          a :: lane Prod.fst a.1 rest := by
        rw [Interleaving.unread, ← hlane, List.drop_left, lane]
        exact List.filter_cons_of_pos (decide_eq_true rfl)
      exact hs.read hserver hregistered (hconn.trans hsock.symm) hunread
  exact hall order [] (List.append_nil order)

structure Done (s : State) : Prop where
  calls : s.calls = []
  given : s.given = sent main
  unread : ∀ conn, s.unread conn = []
  loop : s.server.main = .loop

theorem interleaves_of_done (hsound : Sound s) (h : Done s) : Interleaves s.taken := by
  intro conn
  have hlane := hsound.merges.lane_eq conn
  rwa [show Interleaving.unread Prod.fst s.taken s.given conn = [] from h.unread conn,
    List.append_nil, h.given] at hlane

theorem Stage.done (h : Stage s kernel taken) (hall : Interleaves taken) : Done s where
  calls := h.calls
  given := h.given
  unread conn := by
    rw [State.unread, h.taken, h.given, Interleaving.unread, ← hall conn]
    exact List.drop_length
  loop := h.loop

/-- The order in which main writes is not kept: with every byte read, the buffer of the
server has an interleaving of the four texts, and each of them happens. -/
theorem buffers_iff (content : List UInt8) :
    (∃ x : Run, ∃ s, x.final = some s ∧ Done s ∧ text 0 s.server.commonBuffer = content) ↔
      ∃ order, Interleaves order ∧ order.map Prod.snd = content := by
  constructor
  · rintro ⟨x, s, hfinal, hdone, rfl⟩
    have hsound := Reachable.sound ⟨x, hfinal⟩
    exact ⟨s.taken, interleaves_of_done hsound hdone, (hsound.merged.settled hdone.loop).symm⟩
  · rintro ⟨order, horder, rfl⟩
    obtain ⟨s, hs⟩ := stage_interleaves horder
    obtain ⟨x, hfinal⟩ := hs.reachable
    refine ⟨x, s, hfinal, hs.done horder, ?_⟩
    rw [hs.reachable.sound.merged.settled hs.loop, hs.taken]

/-- In every run, however the client, the network and the threads of the server follow one
another, nothing is lost between the connections and the output. -/
theorem keeps_connections (x : Run) : ∃ s, x.final = some s ∧ Merged s := by
  obtain ⟨s, hfinal, hsound⟩ := sound_final x
  exact ⟨s, hfinal, hsound.merged⟩

end ConnectionOrder.Client
