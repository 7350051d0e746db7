import ConnectionOrder.Non
import ConnectionOrder.Per
import ConnectionOrder.ServerEpx3.Ledger
import ConnectionOrder.ServerEpx3.Meters
import Mathlib.Data.Fintype.BigOperators

/-!
# per, non and server_epx3 together

Any number of persistent and of non-persistent clients, each with arguments of its own. The
server accepts connections in the order of the connects and reads from each what its client
has sent, cut at any place; what is left when a connection ends may be lost.
-/

namespace ConnectionOrder.Exp3

open Machine Sends Links
open ServerEpx3 (persistentByte Measure meter delivered)

/-- The persistent clients on the left, the others on the right. -/
abbrev Client (p q : Nat) := Fin p ⊕ Fin q

structure Setup (p q : Nat) where
  perArgv : Fin p → List (List Char)
  nonArgv : Fin q → List (List Char)

/-- A persistent client is not there before its connect has succeeded. -/
structure State (p q : Nat) where
  server : ServerEpx3.State
  pers : Fin p → Option Per.State
  nons : Fin q → Non.State
  links : List (Link (Client p q))

inductive Input (p q : Nat) where
  | connect (i : Fin p) (start : Timespec)
  | per (i : Fin p) (input : Per.Input)
  | non (i : Fin q) (input : Non.Input)
  | server (input : ServerEpx3.Input)

variable {p q : Nat}

/-- Each message is this byte throughout, so that the place of the cut does not matter. -/
def message : Client p q → UInt8
  | .inl _ => persistentByte
  | .inr _ => 78

def perLinks (c : Client p q) : Per.Input → List (Link (Client p q)) → List (Link (Client p q))
  | .turn sent _, links => give c (taken sent) links
  | .signal, links => links

def nonLinks (c : Client p q) : Non.Input → List (Link (Client p q)) → List (Link (Client p q))
  | .attempt .connected, links => connect c links
  | .turn sent, links => give c (taken sent) links
  | .attempt .noSocket, links | .attempt (.refused _), links | .finish _, links
  | .signal, links => links

def serverLinks (s : ServerEpx3.State) (input : ServerEpx3.Input)
    (links : List (Link (Client p q))) : List (Link (Client p q)) :=
  match delivered s input with
  | some (fd, chunk) => take (s.kernel.conn fd) chunk.length links
  | none => links

def step (setup : Setup p q) (s : State p q) : Input p q → State p q
  | .connect i start =>
    { s with
      pers := Function.update s.pers i (some (Per.initial start))
      links := connect (.inl i) s.links }
  | .per i input =>
    { s with
      pers := Function.update s.pers i ((s.pers i).map fun t => Per.step t input)
      links := perLinks (.inl i) input s.links }
  | .non i input =>
    { s with
      nons := Function.update s.nons i (Non.step (setup.nonArgv i) (s.nons i) input)
      links := nonLinks (.inr i) input s.links }
  | .server input =>
    { s with
      server := ServerEpx3.step s.server input
      links := serverLinks s.server input s.links }

/-- accept returns a connection that was made, recv what its client has sent. -/
def Arrives (s : State p q) (input : ServerEpx3.Input) : Prop :=
  match ServerEpx3.action s.server input with
  | .place _ _ => s.server.kernel.accepted < s.links.length
  | .data fd chunk _ _ => ∃ l, numbered (s.server.kernel.conn fd) s.links = some l ∧
      l.read + chunk.length ≤ l.sent ∧ ∀ b ∈ chunk.bytes, b = message l.client
  | .quiet | .leave _ | .finish | .stray _ => True

def Permitted (setup : Setup p q) (s : State p q) : Input p q → Prop
  | .connect i _ => s.pers i = none
  | .per i input => ∃ t, s.pers i = some t ∧
      Per.Permitted (Per.maxRuntime (setup.perArgv i)) t input
  | .non i input => Non.Permitted (setup.nonArgv i) (s.nons i) input
  | .server input => ServerEpx3.Permitted s.server input ∧ Arrives s input

structure Initial (s : State p q) : Prop where
  server : ServerEpx3.Initial s.server
  pers : ∀ i, s.pers i = none
  nons : ∀ i, ∃ start, s.nons i = Non.initial start
  links : s.links = []

abbrev Run (setup : Setup p q) := Execution (step setup) Initial (Permitted setup)

/-! ## The clients -/

/-- What a persistent client has sent: nothing before it is there. -/
def PerSent (t : Option Per.State) (sent : List Nat) : Prop :=
  match t with
  | none => sent = []
  | some t => Per.Accounted t ∧ sent = [t.accepted]

/-- What a non-persistent client has sent on the open connection and on those before. -/
def NonSent (argv : List (List Char)) (t : Non.State) (sent : List Nat) : Prop :=
  ∃ cs, Non.Accounted argv cs t ∧
    sent = t.conn.elim [] (fun c => [c.accepted]) ++ (cs.map Non.Closed.accepted).reverse

/-- The links are what the clients have made and written. -/
structure Connected (setup : Setup p q) (s : State p q) : Prop where
  per : ∀ i, PerSent (s.pers i) (sends (.inl i) s.links)
  non : ∀ i, NonSent (setup.nonArgv i) (s.nons i) (sends (.inr i) s.links)

theorem nonSent_initial (argv : List (List Char)) (start : Timespec) :
    NonSent argv (Non.initial start) [] := ⟨[], ⟨nofun, rfl, rfl, rfl, rfl, nofun⟩, rfl⟩

theorem connected_start (setup : Setup p q) {s : State p q} (h : Initial s) :
    Connected setup s := by
  constructor
  · intro i
    rw [h.links, h.pers i]
    rfl
  · intro i
    obtain ⟨start, hstart⟩ := h.nons i
    rw [h.links, hstart]
    exact nonSent_initial _ start

theorem PerSent.step {t : Per.State} {maxRuntime : Int} {input : Per.Input} {c : Client p q}
    {links : List (Link (Client p q))} (h : PerSent (some t) (sends c links))
    (hp : Per.Permitted maxRuntime t input) :
    PerSent (some (Per.step t input)) (sends c (perLinks c input links)) := by
  obtain ⟨haccounted, hsent⟩ := h
  cases input with
  | signal =>
    exact ⟨⟨haccounted.cursor, haccounted.messages, haccounted.packets, haccounted.bytes⟩, hsent⟩
  | turn sent now =>
    refine ⟨Per.accounted_turn now haccounted hp.2, ?_⟩
    rw [perLinks, sends_give_self hsent, Per.step, Per.accepted_turn]

theorem NonSent.step {argv : List (List Char)} {t : Non.State} {input : Non.Input}
    {c : Client p q} {links : List (Link (Client p q))} (h : NonSent argv t (sends c links))
    (hp : Non.Permitted argv t input) :
    NonSent argv (Non.step argv t input) (sends c (nonLinks c input links)) := by
  obtain ⟨cs, haccounted, hsent⟩ := h
  refine ⟨_, Non.accounted_step hp haccounted, ?_⟩
  cases input with
  | signal =>
    rw [Non.closed, List.append_nil]
    exact hsent
  | attempt a =>
    rw [Non.closed, List.append_nil]
    cases a with
    | noSocket | refused now => exact hsent
    | connected =>
      rw [nonLinks, sends_connect_self, hsent, hp.1]
      rfl
  | turn sent =>
    obtain ⟨open', hconn, _⟩ := hp
    obtain ⟨next, hnext, haccepted⟩ := Non.conn_turn hconn sent
    rw [hconn] at hsent
    rw [Non.closed, List.append_nil, nonLinks, sends_give_self hsent, Non.step, hconn]
    change _ = (Non.turn t open' sent).conn.elim [] (fun c => [c.accepted]) ++ _
    rw [hnext, ← haccepted]
    rfl
  | finish now =>
    obtain ⟨last, hconn, _⟩ := hp
    have hover : (Non.step argv t (.finish now)).conn = none := by
      rw [Non.step, hconn]
      exact Non.conn_finish argv t last
    rw [hover, nonLinks, hsent, Non.closed, hconn]
    simp only [Option.elim_some, Option.elim_none, List.map_append, List.reverse_append,
      List.map_cons, List.map_nil, List.reverse_singleton, List.nil_append]

theorem sends_perLinks_of_ne {c c' : Client p q} (h : c ≠ c') (input : Per.Input)
    (links : List (Link (Client p q))) : sends c' (perLinks c input links) = sends c' links := by
  cases input with
  | turn sent now => exact sends_give_of_ne h _ _
  | signal => rfl

theorem sends_nonLinks_of_ne {c c' : Client p q} (h : c ≠ c') (input : Non.Input)
    (links : List (Link (Client p q))) : sends c' (nonLinks c input links) = sends c' links := by
  cases input with
  | attempt a =>
    cases a with
    | noSocket | refused now => rfl
    | connected => exact sends_connect_of_ne h _
  | turn sent => exact sends_give_of_ne h _ _
  | finish | signal => rfl

theorem sends_serverLinks (c : Client p q) (s : ServerEpx3.State) (input : ServerEpx3.Input)
    (links : List (Link (Client p q))) : sends c (serverLinks s input links) = sends c links := by
  rw [serverLinks]
  split
  · exact sends_take _ _ _ _
  · rfl

theorem Connected.step {setup : Setup p q} {s : State p q} {input : Input p q}
    (h : Connected setup s) (hp : Permitted setup s input) :
    Connected setup (step setup s input) := by
  cases input with
  | connect i start =>
    constructor
    · intro i'
      dsimp only [Exp3.step]
      cases eq_or_ne i' i with
      | inl heq =>
        subst heq
        have hnone := h.per i'
        rw [hp] at hnone
        rw [Function.update_self, sends_connect_self, hnone]
        exact ⟨Per.accounted_initial start, rfl⟩
      | inr hne =>
        rw [Function.update_of_ne hne, sends_connect_of_ne (Sum.inl_injective.ne hne.symm)]
        exact h.per i'
    · intro i'
      dsimp only [Exp3.step]
      rw [sends_connect_of_ne Sum.inl_ne_inr]
      exact h.non i'
  | per i input =>
    obtain ⟨t, ht, hp⟩ := hp
    constructor
    · intro i'
      dsimp only [Exp3.step]
      cases eq_or_ne i' i with
      | inl heq =>
        subst heq
        have hsent := h.per i'
        rw [ht] at hsent
        rw [Function.update_self, ht]
        exact hsent.step hp
      | inr hne =>
        rw [Function.update_of_ne hne, sends_perLinks_of_ne (Sum.inl_injective.ne hne.symm)]
        exact h.per i'
    · intro i'
      dsimp only [Exp3.step]
      rw [sends_perLinks_of_ne Sum.inl_ne_inr]
      exact h.non i'
  | non i input =>
    constructor
    · intro i'
      dsimp only [Exp3.step]
      rw [sends_nonLinks_of_ne Sum.inr_ne_inl]
      exact h.per i'
    · intro i'
      dsimp only [Exp3.step]
      cases eq_or_ne i' i with
      | inl heq =>
        subst heq
        rw [Function.update_self]
        exact (h.non i').step hp
      | inr hne =>
        rw [Function.update_of_ne hne, sends_nonLinks_of_ne (Sum.inr_injective.ne hne.symm)]
        exact h.non i'
  | server input =>
    constructor
    · intro i'
      dsimp only [Exp3.step]
      rw [sends_serverLinks]
      exact h.per i'
    · intro i'
      dsimp only [Exp3.step]
      rw [sends_serverLinks]
      exact h.non i'

/-! ## The server -/

/-- What the server has counted comes from what it has read, as persistent only from the
persistent clients. -/
structure Served (server : ServerEpx3.State) (links : List (Link (Client p q))) : Prop where
  sound : Sound links
  accepted : server.kernel.accepted ≤ links.length
  fresh : ∀ number l, server.kernel.accepted < number → numbered number links = some l →
    l.read = 0
  descriptors : ServerEpx3.Numbered server
  distinct : ServerEpx3.Distinct server
  recorded : 0 ≤ ServerEpx3.unrecorded server
  meters : ∀ u : Measure, (meter u server).Within (reads u.weight Sum.isLeft links)
    (reads u.weight (fun _ => true) links)
  slot : server.slots.persistentFd ≠ -1 →
    ∀ l, numbered (server.kernel.conn server.slots.persistentFd) links = some l →
      l.client.isRight = true → l.read = 0

theorem served_start {s : State p q} (h : Initial s) : Served s.server s.links := by
  have hrecorded := (ServerEpx3.ledger_start h.server).1
  rw [h.links]
  refine ⟨nofun, ?_, nofun, ServerEpx3.numbered_start h.server,
    ServerEpx3.distinct_start h.server, hrecorded.ge, ?_, nofun⟩
  · obtain ⟨_, _, _, _, _, hserver⟩ := h.server
    rw [hserver]
    exact Nat.le_refl 0
  · intro u
    obtain ⟨_, _, _, _, _, hserver⟩ := h.server
    rw [hserver]
    refine ⟨0, 0, 0, ?_, Nat.le_refl 0, Nat.le_refl 0⟩
    cases u <;> rfl

theorem Served.grow {server : ServerEpx3.State} {links links' : List (Link (Client p q))}
    (h : Served server links) (hgrows : Grows links links') : Served server links' where
  sound := hgrows.sound h.sound
  accepted := h.accepted.trans hgrows.length
  fresh number l hnumber hl := by
    rcases hgrows.numbered number l hl with ⟨l', hl', _, hread⟩ | ⟨_, hread⟩
    · rw [← hread]
      exact h.fresh number l' hnumber hl'
    · exact hread
  descriptors := h.descriptors
  distinct := h.distinct
  recorded := h.recorded
  meters u := by
    rw [hgrows.reads _ u.superadditive, hgrows.reads _ u.superadditive]
    exact h.meters u
  slot hbusy l hl hright := by
    rcases hgrows.numbered _ l hl with ⟨l', hl', hclient, hread⟩ | ⟨_, hread⟩
    · rw [← hread]
      rw [← hclient] at hright
      exact h.slot hbusy l' hl' hright
    · exact hread

theorem recorded_step {server : ServerEpx3.State} {input : ServerEpx3.Input}
    (hp : ServerEpx3.Permitted server input) (hnum : ServerEpx3.Numbered server)
    (h : 0 ≤ ServerEpx3.unrecorded server) :
    0 ≤ ServerEpx3.unrecorded (ServerEpx3.step server input) := by
  rw [(ServerEpx3.ledger_step hp hnum).1]
  split <;> omega

/-- A step in which nothing is read. -/
theorem Served.silent {server : ServerEpx3.State} {links : List (Link (Client p q))}
    (h : Served server links) {input : ServerEpx3.Input}
    (hp : ServerEpx3.Permitted server input) (hdelivered : delivered server input = none)
    (hplace : ∀ fd connectTime, ServerEpx3.action server input = .place fd connectTime →
      server.kernel.accepted < links.length) :
    Served (ServerEpx3.step server input) links := by
  have hnumbers := ServerEpx3.numbers_step server input
  refine ⟨h.sound, ?_, ?_, ServerEpx3.numbered_step hp h.descriptors,
    ServerEpx3.distinct_step input h.descriptors.conn h.distinct,
    recorded_step hp h.descriptors h.recorded,
    fun u => ServerEpx3.within_silent (h.meters u) hdelivered, ?_⟩
  · rcases hnumbers with ⟨_, haccepted, _⟩ | ⟨fd, connectTime, ha, _, haccepted⟩
    · rw [haccepted]
      exact h.accepted
    · rw [haccepted]
      exact hplace fd connectTime ha
  · intro number l hnumber hl
    refine h.fresh number l ?_ hl
    rcases hnumbers with ⟨_, haccepted, _⟩ | ⟨_, _, _, _, haccepted⟩ <;> omega
  · intro hbusy l hl hright
    -- A client that is accepted has not been read yet.
    have hnew : ∀ number, number = server.kernel.accepted + 1 → numbered number links = some l →
        l.read = 0 := by
      rintro number rfl hl
      exact h.fresh _ l (Nat.lt_succ_self _) hl
    rcases ServerEpx3.persistentFd_silent hdelivered with hfree | hsame | ⟨connectTime, ha⟩
    · exact absurd hfree hbusy
    · rw [hsame] at hbusy hl
      rcases hnumbers with ⟨hconn, _, _⟩ | ⟨fd, _, _, hconn, _⟩
      · rw [hconn] at hl
        exact h.slot hbusy l hl hright
      · rw [hconn, Function.update_apply] at hl
        split at hl
        · exact hnew _ rfl hl
        · exact h.slot hbusy l hl hright
    · rcases hnumbers with ⟨_, _, hnone⟩ | ⟨fd, _, ha', hconn, _⟩
      · exact absurd ha (hnone _ _)
      · rw [ha] at ha'
        cases ha'
        rw [hconn, Function.update_self] at hl
        exact hnew _ rfl hl

theorem client_of_head {l : Link (Client p q)} {chunk : Chunk ServerEpx3.bufferSize}
    (hbytes : ∀ b ∈ chunk.bytes, b = message l.client) (hhead : chunk.head = persistentByte) :
    l.client.isLeft = true := by
  have hmessage : chunk.head = message l.client := hbytes _ (List.head_mem chunk.nonempty)
  rw [hhead] at hmessage
  cases hclient : l.client with
  | inl i => rfl
  | inr i =>
    have hne : persistentByte ≠ 78 := by decide
    rw [hclient] at hmessage
    exact absurd hmessage hne

/-- A step in which a client is read. -/
theorem Served.deliver {server : ServerEpx3.State} {links : List (Link (Client p q))}
    (h : Served server links) {input : ServerEpx3.Input}
    (hp : ServerEpx3.Permitted server input) {fd : Fd} {chunk : Chunk ServerEpx3.bufferSize}
    (hdelivered : delivered server input = some (fd, chunk)) {l : Link (Client p q)}
    (hl : numbered (server.kernel.conn fd) links = some l)
    (hunread : l.read + chunk.length ≤ l.sent)
    (hbytes : ∀ b ∈ chunk.bytes, b = message l.client) :
    Served (ServerEpx3.step server input)
      (take (server.kernel.conn fd) chunk.length links) := by
  obtain ⟨time, endTime, ha⟩ := ServerEpx3.action_of_delivered hdelivered
  obtain ⟨hconn, haccepted⟩ : (ServerEpx3.step server input).kernel.conn = server.kernel.conn ∧
      (ServerEpx3.step server input).kernel.accepted = server.kernel.accepted := by
    rcases ServerEpx3.numbers_step server input with ⟨hconn, haccepted, _⟩ | ⟨_, _, ha', _⟩
    · exact ⟨hconn, haccepted⟩
    · rw [ha] at ha'
      cases ha'
  refine ⟨h.sound.take hl hunread, ?_, ?_, ServerEpx3.numbered_step hp h.descriptors,
    ServerEpx3.distinct_step input h.descriptors.conn h.distinct,
    recorded_step hp h.descriptors h.recorded, ?_, ?_⟩
  · rw [haccepted, length_take]
    exact h.accepted
  · intro number l' hnumber hl'
    rw [haccepted] at hnumber
    have hbound := h.descriptors.conn fd
    rw [numbered_take_of_ne (by omega)] at hl'
    exact h.fresh number l' hnumber hl'
  · intro u
    have hown := reads_take u.superadditive hl chunk.length Sum.isLeft
    have hall := reads_take u.superadditive hl chunk.length fun _ => true
    have hwithin :=
      ServerEpx3.within_delivered hp h.descriptors.sockets (h.meters u) hdelivered
    refine hwithin.mono ((Nat.add_le_add_left ?_ _).trans hown) hall
    rw [ServerEpx3.identified]
    split
    · rename_i hhead
      rw [if_pos (client_of_head hbytes hhead)]
    · exact Nat.zero_le _
  · intro hbusy l' hl' hright
    rw [hconn] at hl'
    rcases ServerEpx3.persistentFd_delivered hdelivered with hfree | ⟨hsame, hhead⟩
    · exact absurd hfree hbusy
    · rw [hsame] at hbusy hl'
      cases eq_or_ne fd server.slots.persistentFd with
      | inl heq =>
        rw [← heq, numbered_take_self hl] at hl'
        cases hl'
        have hleft := client_of_head hbytes (hhead heq)
        rw [← Sum.not_isLeft, hleft] at hright
        exact absurd rfl hright
      | inr hne =>
        have hnumber : server.kernel.conn fd ≠ 0 := by
          intro hzero
          rw [hzero, numbered_zero] at hl
          cases hl
        have hother := fun heq => hne (h.distinct _ _ heq hnumber)
        rw [numbered_take_of_ne hother] at hl'
        exact h.slot hbusy l' hl' hright

theorem grows_perLinks (c : Client p q) (input : Per.Input) (links : List (Link (Client p q))) :
    Grows links (perLinks c input links) := by
  cases input with
  | turn sent now => exact grows_give c _ links
  | signal => exact Grows.refl links

theorem grows_nonLinks (c : Client p q) (input : Non.Input) (links : List (Link (Client p q))) :
    Grows links (nonLinks c input links) := by
  cases input with
  | attempt a =>
    cases a with
    | noSocket | refused now => exact Grows.refl links
    | connected => exact grows_connect c links
  | turn sent => exact grows_give c _ links
  | finish | signal => exact Grows.refl links

theorem Served.step {setup : Setup p q} {s : State p q} {input : Input p q}
    (h : Served s.server s.links) (hp : Permitted setup s input) :
    Served (step setup s input).server (step setup s input).links := by
  cases input with
  | connect i start => exact h.grow (grows_connect _ _)
  | per i input => exact h.grow (grows_perLinks _ _ _)
  | non i input => exact h.grow (grows_nonLinks _ _ _)
  | server input =>
    obtain ⟨hp, harrives⟩ := hp
    dsimp only [Exp3.step]
    rw [serverLinks]
    rw [Arrives] at harrives
    split
    · rename_i fd chunk hdelivered
      obtain ⟨time, endTime, ha⟩ := ServerEpx3.action_of_delivered hdelivered
      rw [ha] at harrives
      obtain ⟨l, hl, hunread, hbytes⟩ := harrives
      exact h.deliver hp hdelivered hl hunread hbytes
    · rename_i hdelivered
      refine h.silent hp hdelivered fun fd connectTime ha => ?_
      rw [ha] at harrives
      exact harrives

/-! ## The reports -/

/-- What the client has sent: bytes, or whole messages on each of its connections. -/
def sent (u : Measure) (s : State p q) (c : Client p q) : Nat :=
  ((sends c s.links).map u.weight).sum

/-- How often the client has connected. -/
def connects (s : State p q) (c : Client p q) : Nat := (sends c s.links).length

/-- The reports of the clients are exact. The server reports as persistent no more than the
persistent clients have sent, as non-persistent no more than all have, and no more
connections than were made. A client in the persistent slot that is not persistent has not
been read. -/
structure Reports (s : State p q) : Prop where
  per : ∀ i t, s.pers i = some t →
    t.totalBytesSent = UInt64.ofNat (sent .bytes s (.inl i)) ∧
    t.totalPacketsSent = UInt64.ofNat (sent .packets s (.inl i))
  nonPackets : ∀ i, (s.nons i).totalPacketsSent = UInt64.ofNat (sent .packets s (.inr i))
  nonConnections : ∀ i, ∃ complete : Nat,
    (s.nons i).totalConnections = UInt64.ofNat complete ∧
    (connects s (.inr i) : Int) =
      complete + (s.nons i).nonComplete + if (s.nons i).conn.isSome then 1 else 0
  persistent : ∀ u, (meter u s.server).per.toNat ≤ ∑ i, sent u s (.inl i)
  nonPersistent : ∀ u, (meter u s.server).non.toNat ≤ ∑ c, sent u s c
  connections : s.server.rejected + s.server.report.connectionCount ≤
    ((∑ c, connects s c : Nat) : Int)
  slot : s.server.slots.persistentFd ≠ -1 →
    ∀ l, numbered (s.server.kernel.conn s.server.slots.persistentFd) s.links = some l →
      l.client.isRight = true → l.read = 0

theorem Connected.nonPackets {setup : Setup p q} {s : State p q} (h : Connected setup s)
    (i : Fin q) : (s.nons i).totalPacketsSent = UInt64.ofNat (sent .packets s (.inr i)) := by
  obtain ⟨cs, haccounted, hsent⟩ := h.non i
  rw [haccounted.packets, haccounted.msgs, sent, hsent, Non.delivered, Non.current,
    List.map_append, List.sum_append, List.map_reverse, List.sum_reverse, List.map_map,
    Nat.add_comm]
  cases (s.nons i).conn <;> rfl

theorem Connected.nonConnections {setup : Setup p q} {s : State p q} (h : Connected setup s)
    (i : Fin q) : ∃ complete : Nat, (s.nons i).totalConnections = UInt64.ofNat complete ∧
      (connects s (.inr i) : Int) =
        complete + (s.nons i).nonComplete + if (s.nons i).conn.isSome then 1 else 0 := by
  obtain ⟨cs, haccounted, hsent⟩ := h.non i
  have hpart := List.length_eq_countP_add_countP (p := Non.Closed.complete) (l := cs)
  simp only [decide_not, Bool.decide_eq_true] at hpart
  refine ⟨cs.countP Non.Closed.complete, haccounted.complete, ?_⟩
  rw [haccounted.nonComplete, connects, hsent, List.length_append, List.length_reverse,
    List.length_map]
  cases hconn : (s.nons i).conn with
  | none =>
    simp only [Option.elim_none, List.length_nil, Option.isSome_none, Bool.false_eq_true, if_false]
    omega
  | some c =>
    simp only [Option.elim_some, List.length_singleton, Option.isSome_some, if_true]
    omega

theorem reports_bounded {setup : Setup p q} (x : Run setup) : Reports x.final := by
  have hall := x.invariant (P := fun s => Connected setup s ∧ Served s.server s.links)
    (fun s h => ⟨connected_start setup h, served_start h⟩)
    (fun s input hp h => ⟨h.1.step hp, h.2.step hp⟩)
  obtain ⟨hconnected, hserved⟩ := hall.final
  refine ⟨?_, hconnected.nonPackets, hconnected.nonConnections, ?_, ?_, ?_, hserved.slot⟩
  · intro i t ht
    have hsent := hconnected.per i
    rw [ht] at hsent
    rw [sent, sent, hsent.2]
    exact ⟨hsent.1.bytes, hsent.1.packets⟩
  · intro u
    refine (hserved.meters u).per_le.trans ?_
    refine (hserved.sound.reads_le u.superadditive _).trans (Nat.le_of_eq ?_)
    rw [Fintype.sum_sum_type]
    simp [sent]
  · intro u
    refine (hserved.meters u).non_le.trans ?_
    exact hserved.sound.reads_le u.superadditive _
  · have hrecorded := hserved.recorded
    have hheld := ServerEpx3.held_nonneg x.final.server.slots
    have haccepted := hserved.accepted
    have hlength := sum_length_sends x.final.links
    rw [ServerEpx3.unrecorded] at hrecorded
    simp only [connects, hlength]
    omega

end ConnectionOrder.Exp3
