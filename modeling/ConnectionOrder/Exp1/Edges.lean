import ConnectionOrder.Exp1.EventLoop

/-!
# What one recv for each edge leaves behind

server_final reads once for each event. An edge that announced more than one buffer,
or data together with a FIN, is spent by that read, and what is left of it waits for an
arrival that may not come.
-/

namespace ConnectionOrder.ServerFinal

open EdgeTriggered Machine

/-- Nothing in flight, no undelivered event, and the loop waits. -/
structure Quiescent (s : State) : Prop where
  running : s.running = true
  accepting : s.accepting = false
  pending : s.pending = []
  listen : s.listenEdge = false
  served : ∀ fd ∈ s.kernel.registered, fd ≠ s.serverFd →
    ¬((s.stream (s.kernel.conn fd)).edge = true ∧ (s.stream (s.kernel.conn fd)).Readable)
  quiet : ∀ conn, Established s conn → ¬(s.stream conn).Coming

theorem quiescent_iff (s : State) :
    (s.running = true ∧ s.accepting = false ∧ s.pending = [] ∧ s.listenEdge = false ∧
      (∀ fd ∈ s.kernel.registered, fd ≠ s.serverFd →
        ¬((s.stream (s.kernel.conn fd)).edge = true ∧
          (s.stream (s.kernel.conn fd)).Readable)) ∧
      ∀ conn < s.established + 1, 1 ≤ conn → ¬(s.stream conn).Coming) ↔ Quiescent s := by
  constructor
  · rintro ⟨hrunning, haccepting, hpending, hlisten, hserved, hquiet⟩
    exact ⟨hrunning, haccepting, hpending, hlisten, hserved,
      fun conn h => hquiet conn (Nat.lt_succ_of_le h.2) h.1⟩
  · intro h
    exact ⟨h.running, h.accepting, h.pending, h.listen, h.served,
      fun conn hlt hpos => h.quiet conn ⟨hpos, Nat.le_of_lt_succ hlt⟩⟩

instance (s : State) : Decidable (Quiescent s) := decidable_of_iff _ (quiescent_iff s)

/-- Every accepted connection has been read to the end of what its peer has sent. -/
def AllSettled (s : State) : Prop :=
  ∀ conn, 1 ≤ conn → conn ≤ s.kernel.accepted → (s.stream conn).Settled

/-- A client event finds something to read. It finds at most one buffer, and no FIN
behind data, unless more has arrived since epoll_wait or is in flight. -/
def Drains (s : State) : Input → Prop
  | .event =>
    match s.pending with
    | [] => True
    | fd :: _ => fd = s.serverFd ∨ (s.stream (s.kernel.conn fd)).Drained bufferSize
  | .wait _ | .accept _ | .signal | .establish | .send .. | .finish _ | .arrive ..
  | .arriveFin _ => True

instance (s : State) : (input : Input) → Decidable (Drains s input)
  | .event =>
    match h : s.pending with
    | [] => .isTrue (by rw [Drains, h]; trivial)
    | fd :: _ =>
      decidable_of_iff (fd = s.serverFd ∨ (s.stream (s.kernel.conn fd)).Drained bufferSize)
        (by rw [Drains, h])
  | .wait _ | .accept _ | .signal | .establish | .send .. | .finish _ | .arrive ..
  | .arriveFin _ => .isTrue trivial

/-- The open connections are those whose descriptors the loop knows, each under its own
number, and a batch is about distinct ones of them. -/
structure Tidy (s : State) : Prop where
  server : s.serverFd ∉ s.kernel.sockets
  registered : ∀ fd ∈ s.kernel.sockets, fd ∈ s.kernel.registered ∧ fd ∈ s.connections
  served : ∀ fd ∈ s.kernel.registered, fd ≠ s.serverFd → fd ∈ s.kernel.sockets
  numbered : ∀ fd ∈ s.kernel.sockets, s.kernel.conn fd ≤ s.kernel.accepted
  unique : ∀ fd ∈ s.kernel.sockets, ∀ fd' ∈ s.kernel.sockets,
    s.kernel.conn fd = s.kernel.conn fd' → fd = fd'
  opened : ∀ fd ∈ s.kernel.sockets, (s.stream (s.kernel.conn fd)).closed = false
  backlog : ∀ conn, s.kernel.accepted < conn → (s.stream conn).closed = false
  held : ∀ conn, 1 ≤ conn → conn ≤ s.kernel.accepted → (s.stream conn).closed = false →
    ∃ fd ∈ s.kernel.sockets, s.kernel.conn fd = conn
  nodup : s.pending.Nodup
  pending : ∀ fd ∈ s.pending, fd ≠ s.serverFd → fd ∈ s.kernel.sockets
  listening : s.kernel.accepted ≤ s.established

/-! ## The books of the loop -/

theorem tidy_start (serverFd : Fd) : Tidy (start serverFd) where
  server := Finset.notMem_empty serverFd
  registered _ hmem := absurd hmem (Finset.notMem_empty _)
  served _ hmem hne := absurd (Finset.mem_singleton.mp hmem) hne
  numbered _ hmem := absurd hmem (Finset.notMem_empty _)
  unique _ hmem := absurd hmem (Finset.notMem_empty _)
  opened _ hmem := absurd hmem (Finset.notMem_empty _)
  backlog _ _ := rfl
  held _ hpos hle := absurd hpos (Nat.not_le.mpr (Nat.lt_succ_of_le hle))
  nodup := List.nodup_nil
  pending _ hmem := absurd hmem List.not_mem_nil
  listening := Nat.le_refl 0

/-- The books do not depend on the rest of the state, nor on the streams but for who has
been closed. -/
theorem Tidy.of_same {s s' : State} (h : Tidy s) (hkernel : s'.kernel = s.kernel)
    (hserver : s'.serverFd = s.serverFd) (hconnections : s'.connections = s.connections)
    (hpending : s'.pending.Sublist s.pending) (hestablished : s.established ≤ s'.established)
    (hclosed : ∀ conn, (s'.stream conn).closed = (s.stream conn).closed) : Tidy s' := by
  constructor
  · rw [hkernel, hserver]
    exact h.server
  · rw [hkernel, hconnections]
    exact h.registered
  · rw [hkernel, hserver]
    exact h.served
  · rw [hkernel]
    exact h.numbered
  · rw [hkernel]
    exact h.unique
  · intro fd hmem
    rw [hkernel] at hmem
    rw [hkernel, hclosed]
    exact h.opened fd hmem
  · intro conn hlt
    rw [hkernel] at hlt
    rw [hclosed]
    exact h.backlog conn hlt
  · intro conn hpos hle hopen
    rw [hkernel] at hle
    rw [hclosed] at hopen
    rw [hkernel]
    exact h.held conn hpos hle hopen
  · exact h.nodup.sublist hpending
  · intro fd hmem
    rw [hkernel, hserver]
    exact h.pending fd (hpending.mem hmem)
  · rw [hkernel]
    exact h.listening.trans hestablished

theorem closed_update {s : State} {f : Stream UInt8 → Stream UInt8}
    (hf : ∀ c : Stream UInt8, (f c).closed = c.closed) (conn other : Nat) :
    ((s.update conn f).stream other).closed = (s.stream other).closed := by
  rcases eq_or_ne other conn with rfl | hne
  · rw [s.stream_update_self, hf]
  · rw [s.stream_update_of_ne f hne]

theorem Tidy.update {s : State} (h : Tidy s) (conn : Nat) (f : Stream UInt8 → Stream UInt8)
    (hf : ∀ c : Stream UInt8, (f c).closed = c.closed) : Tidy (s.update conn f) :=
  h.of_same rfl rfl rfl (List.Sublist.refl _) (Nat.le_refl _) (closed_update hf conn)

theorem Tidy.epollWait {s : State} (h : Tidy s) {batch : List Fd} (hnodup : batch.Nodup)
    (hedges : ∀ fd ∈ batch, Edge s fd) : Tidy (epollWait s batch) := by
  have hbatch : Tidy { s with
      pending := batch
      listenEdge := if s.serverFd ∈ batch then false else s.listenEdge } := by
    refine ⟨h.server, h.registered, h.served, h.numbered, h.unique, h.opened, h.backlog, h.held,
      hnodup, ?_, h.listening⟩
    intro fd hmem hne
    have hedge := hedges fd hmem
    rw [Edge, if_neg hne] at hedge
    exact h.served fd hedge.1 hne
  refine hbatch.of_same rfl rfl rfl (List.Sublist.refl batch) (Nat.le_refl _) fun conn => ?_
  rw [ServerFinal.epollWait]
  dsimp only
  split <;> rfl

theorem Tidy.accept {s : State} (h : Tidy s) {clientFd : Fd} (hfree : Acceptable s clientFd) :
    Tidy (accept4 s (some clientFd)) := by
  obtain ⟨hwaiting, hnew, hne⟩ := hfree
  have hkept : ∀ fd ∈ s.kernel.sockets,
      ((s.kernel.accept clientFd).add clientFd).conn fd = s.kernel.conn fd := by
    rintro fd hmem
    exact Kernel.conn_accept_of_ne _ fun heq => hnew (heq ▸ hmem)
  have hlast : ((s.kernel.accept clientFd).add clientFd).conn clientFd = s.kernel.accepted + 1 :=
    Kernel.conn_accept_self _ _
  constructor
  · change s.serverFd ∉ insert clientFd s.kernel.sockets
    rw [Finset.mem_insert, not_or]
    exact ⟨hne.symm, h.server⟩
  · intro fd hmem
    rcases Finset.mem_insert.mp hmem with rfl | hold
    · exact ⟨Finset.mem_insert_self _ _, Finset.mem_insert_self _ _⟩
    · obtain ⟨hregistered, hrecorded⟩ := h.registered fd hold
      exact ⟨Finset.mem_insert_of_mem hregistered, Finset.mem_insert_of_mem hrecorded⟩
  · intro fd hmem hserver
    rcases Finset.mem_insert.mp hmem with rfl | hold
    · exact Finset.mem_insert_self _ _
    · exact Finset.mem_insert_of_mem (h.served fd hold hserver)
  · intro fd hmem
    change _ ≤ s.kernel.accepted + 1
    rcases Finset.mem_insert.mp hmem with rfl | hold
    · exact hlast.le
    · exact (hkept fd hold).le.trans (Nat.le_succ_of_le (h.numbered fd hold))
  · intro fd hmem fd' hmem' heq
    change ((s.kernel.accept clientFd).add clientFd).conn fd =
      ((s.kernel.accept clientFd).add clientFd).conn fd' at heq
    rcases Finset.mem_insert.mp hmem with rfl | hold
    · rcases Finset.mem_insert.mp hmem' with rfl | hold'
      · rfl
      · rw [hlast, hkept fd' hold'] at heq
        exact absurd (h.numbered fd' hold') (by omega)
    · rcases Finset.mem_insert.mp hmem' with rfl | hold'
      · rw [hlast, hkept fd hold] at heq
        exact absurd (h.numbered fd hold) (by omega)
      · rw [hkept fd hold, hkept fd' hold'] at heq
        exact h.unique fd hold fd' hold' heq
  · intro fd hmem
    change (s.stream (((s.kernel.accept clientFd).add clientFd).conn fd)).closed = false
    rcases Finset.mem_insert.mp hmem with rfl | hold
    · rw [hlast]
      exact h.backlog _ (Nat.lt_succ_self _)
    · rw [hkept fd hold]
      exact h.opened fd hold
  · exact fun conn hlt => h.backlog conn (Nat.lt_of_succ_lt hlt)
  · intro conn hpos hle hopen
    rcases Nat.le_succ_iff.mp hle with hold | rfl
    · obtain ⟨fd, hmem, hconn⟩ := h.held conn hpos hold hopen
      exact ⟨fd, Finset.mem_insert_of_mem hmem, (hkept fd hmem).trans hconn⟩
    · exact ⟨clientFd, Finset.mem_insert_self _ _, hlast⟩
  · exact h.nodup
  · exact fun fd hmem hserver => Finset.mem_insert_of_mem (h.pending fd hmem hserver)
  · exact hwaiting

theorem Tidy.close {s : State} (h : Tidy s) {fd : Fd} (hmem : fd ∈ s.kernel.sockets)
    (hpending : fd ∉ s.pending) :
    Tidy { s.update (s.kernel.conn fd) Stream.close with kernel := s.kernel.close fd } := by
  have hother : ∀ conn, conn ≠ s.kernel.conn fd →
      (s.update (s.kernel.conn fd) Stream.close).stream conn = s.stream conn :=
    fun conn hne => s.stream_update_of_ne _ hne
  constructor
  · exact fun hserver => h.server (Finset.mem_of_mem_erase hserver)
  · intro fd' hmem'
    obtain ⟨hne, hold⟩ := Finset.mem_erase.mp hmem'
    obtain ⟨hregistered, hrecorded⟩ := h.registered fd' hold
    exact ⟨Finset.mem_erase.mpr ⟨hne, hregistered⟩, hrecorded⟩
  · intro fd' hmem' hserver
    obtain ⟨hne, hold⟩ := Finset.mem_erase.mp hmem'
    exact Finset.mem_erase.mpr ⟨hne, h.served fd' hold hserver⟩
  · exact fun fd' hmem' => h.numbered fd' (Finset.mem_of_mem_erase hmem')
  · exact fun fd₁ hmem₁ fd₂ hmem₂ =>
      h.unique fd₁ (Finset.mem_of_mem_erase hmem₁) fd₂ (Finset.mem_of_mem_erase hmem₂)
  · intro fd' hmem'
    obtain ⟨hne, hold⟩ := Finset.mem_erase.mp hmem'
    have hconn : s.kernel.conn fd' ≠ s.kernel.conn fd :=
      fun heq => hne (h.unique fd' hold fd hmem heq)
    exact (congrArg Stream.closed (hother _ hconn)).trans (h.opened fd' hold)
  · intro conn hlt
    have hconn : conn ≠ s.kernel.conn fd := by
      rintro rfl
      exact absurd (h.numbered fd hmem) (Nat.not_le.mpr hlt)
    exact (congrArg Stream.closed (hother _ hconn)).trans (h.backlog conn hlt)
  · intro conn hpos hle hopen
    have hconn : conn ≠ s.kernel.conn fd := by
      rintro rfl
      change ((s.update (s.kernel.conn fd) Stream.close).stream (s.kernel.conn fd)).closed = false
        at hopen
      rw [s.stream_update_self] at hopen
      cases hopen
    rw [hother conn hconn] at hopen
    obtain ⟨fd', hold, heq⟩ := h.held conn hpos hle hopen
    refine ⟨fd', Finset.mem_erase.mpr ⟨?_, hold⟩, heq⟩
    rintro rfl
    exact hconn heq.symm
  · exact h.nodup
  · intro fd' hmem' hserver
    refine Finset.mem_erase.mpr ⟨?_, h.pending fd' hmem' hserver⟩
    rintro rfl
    exact hpending hmem'
  · exact h.listening

/-! ## One client event -/

theorem handleClient_data {s : State} {fd : Fd}
    (hqueue : (s.stream (s.kernel.conn fd)).queue ≠ []) :
    ∃ tracker, handleClient s fd =
      { s.update (s.kernel.conn fd) (·.take bufferSize) with tracker := tracker } := by
  rw [handleClient, recv, dif_neg hqueue]
  exact ⟨_, rfl⟩

theorem handleClient_end {s : State} {fd : Fd}
    (hqueue : (s.stream (s.kernel.conn fd)).queue = []) :
    ∃ tracker, handleClient s fd =
      { s.update (s.kernel.conn fd) Stream.close with
        tracker := tracker, kernel := s.kernel.close fd } := by
  rw [handleClient, recv, dif_pos hqueue]
  cases (s.stream (s.kernel.conn fd)).fin <;> exact ⟨_, rfl⟩

theorem Tidy.handleClient {s : State} (h : Tidy s) {fd : Fd} (hmem : fd ∈ s.kernel.sockets)
    (hpending : fd ∉ s.pending) : Tidy (handleClient s fd) := by
  by_cases hqueue : (s.stream (s.kernel.conn fd)).queue = []
  · obtain ⟨tracker, hhandled⟩ := handleClient_end hqueue
    rw [hhandled]
    exact (h.close hmem hpending).of_same rfl rfl rfl (List.Sublist.refl _) (Nat.le_refl _)
      fun _ => rfl
  · obtain ⟨tracker, hhandled⟩ := handleClient_data hqueue
    have htaken : Tidy (s.update (s.kernel.conn fd) (·.take bufferSize)) :=
      h.update _ _ fun _ => rfl
    rw [hhandled]
    exact htaken.of_same rfl rfl rfl (List.Sublist.refl _) (Nat.le_refl _) fun _ => rfl

/-- What the handling of a client event leaves alone. -/
theorem handleClient_frame (s : State) (fd : Fd) :
    (handleClient s fd).pending = s.pending ∧ (handleClient s fd).serverFd = s.serverFd ∧
      (handleClient s fd).kernel.conn = s.kernel.conn ∧
      (handleClient s fd).stream =
        (s.update (s.kernel.conn fd) (·.read bufferSize)).stream := by
  by_cases hqueue : (s.stream (s.kernel.conn fd)).queue = []
  · obtain ⟨tracker, hhandled⟩ := handleClient_end hqueue
    have hread : (s.stream (s.kernel.conn fd)).read bufferSize =
        (s.stream (s.kernel.conn fd)).close := if_pos (List.isEmpty_iff.mpr hqueue)
    rw [hhandled, State.update, State.update, hread]
    exact ⟨rfl, rfl, rfl, rfl⟩
  · obtain ⟨tracker, hhandled⟩ := handleClient_data hqueue
    have hread : (s.stream (s.kernel.conn fd)).read bufferSize =
        (s.stream (s.kernel.conn fd)).take bufferSize :=
      if_neg fun hempty => hqueue (List.isEmpty_iff.mp hempty)
    rw [hhandled, State.update, State.update, hread]
    exact ⟨rfl, rfl, rfl, rfl⟩

/-! ## Who will be woken -/

def Alert (s : State) : Prop :=
  ∀ conn, (s.stream conn).Healthy (ReportedBy s s.pending conn)

theorem alert_start (serverFd : Fd) : Alert (start serverFd) := fun _ => Stream.healthy_idle

theorem Alert.update {s : State} (h : Alert s) (conn : Nat) (f : Stream UInt8 → Stream UInt8)
    (hf : ∀ reported, (s.stream conn).Healthy reported → (f (s.stream conn)).Healthy reported) :
    Alert (s.update conn f) := by
  intro other
  rcases eq_or_ne other conn with rfl | hne
  · rw [s.stream_update_self]
    exact hf _ (h other)
  · rw [s.stream_update_of_ne f hne]
    exact h other

theorem Alert.epollWait {s : State} (h : Alert s) (hpending : s.pending = []) (batch : List Fd) :
    Alert (epollWait s batch) := by
  intro conn
  have hquiet : (s.stream conn).Healthy False := by
    refine (h conn).mono ?_
    rintro ⟨fd, hmem, _⟩
    rw [hpending] at hmem
    cases hmem
  rw [ServerFinal.epollWait]
  dsimp only
  split
  · rename_i hreported
    exact hquiet.report.mono fun _ => hreported
  · exact hquiet.mono False.elim

/-- A new descriptor is in no batch, and connections keep the ones they have. -/
theorem Alert.accept {s : State} (h : Alert s) (htidy : Tidy s) {clientFd : Fd}
    (hfree : Acceptable s clientFd) : Alert (accept4 s (some clientFd)) := by
  intro conn
  refine (h conn).mono ?_
  rintro ⟨fd, hmem, hne, hconn⟩
  have hold : fd ≠ clientFd := by
    rintro rfl
    exact hfree.2.1 (htidy.pending fd hmem hne)
  exact ⟨fd, hmem, hne, (Kernel.conn_accept_of_ne s.kernel hold).trans hconn⟩

theorem alert_event_server {s : State} {rest : List Fd}
    (hpending : s.pending = s.serverFd :: rest) (h : Alert s) :
    Alert { s with pending := rest, accepting := true } := by
  intro conn
  refine (h conn).mono ?_
  rintro ⟨fd, hmem, hne, hconn⟩
  rw [hpending] at hmem
  exact ⟨fd, (List.mem_cons.mp hmem).resolve_left hne, hne, hconn⟩

theorem alert_handleClient_iff {s : State} {fd : Fd} {rest : List Fd} (htidy : Tidy s)
    (hpending : s.pending = fd :: rest) (hne : fd ≠ s.serverFd) (h : Alert s) :
    Alert (handleClient { s with pending := rest } fd) ↔
      (s.stream (s.kernel.conn fd)).Drained bufferSize := by
  have hmem : fd ∈ s.kernel.sockets :=
    htidy.pending fd (hpending ▸ List.mem_cons_self) hne
  have hnodup : fd ∉ rest ∧ rest.Nodup := List.nodup_cons.mp (hpending ▸ htidy.nodup)
  obtain ⟨hrest, hserver, hconns, hstream⟩ := handleClient_frame { s with pending := rest } fd
  have hreported : ∀ conn,
      ReportedBy (handleClient { s with pending := rest } fd) rest conn ↔
        conn ≠ s.kernel.conn fd ∧ ReportedBy s s.pending conn := by
    intro conn
    rw [ReportedBy, ReportedBy, hserver, hconns, hpending]
    constructor
    · rintro ⟨fd', hmem', hne', hconn⟩
      refine ⟨?_, fd', List.mem_cons_of_mem fd hmem', hne', hconn⟩
      rintro rfl
      have hmem'' : fd' ∈ s.kernel.sockets :=
        htidy.pending fd' (hpending ▸ List.mem_cons_of_mem fd hmem') hne'
      have hsame := htidy.unique fd' hmem'' fd hmem hconn
      exact hnodup.1 (hsame ▸ hmem')
    · rintro ⟨hother, fd', hmem', hne', hconn⟩
      refine ⟨fd', (List.mem_cons.mp hmem').resolve_left ?_, hne', hconn⟩
      rintro rfl
      exact hother hconn.symm
  have hself : (s.stream (s.kernel.conn fd)).Healthy True := (h _).mono fun _ => trivial
  rw [← Stream.healthy_read_iff hself (htidy.opened fd hmem)]
  have hcalm : Alert (handleClient { s with pending := rest } fd) ↔ ∀ conn,
      ((s.update (s.kernel.conn fd) (·.read bufferSize)).stream conn).Healthy
        (conn ≠ s.kernel.conn fd ∧ ReportedBy s s.pending conn) := by
    rw [Alert, hrest, hstream]
    simp only [hreported]
    rfl
  rw [hcalm]
  constructor
  · intro hall
    have hread := hall (s.kernel.conn fd)
    rw [s.stream_update_self] at hread
    exact hread.mono fun hno => hno.1 rfl
  · intro hread conn
    rcases eq_or_ne conn (s.kernel.conn fd) with rfl | hother
    · rw [s.stream_update_self]
      exact hread.mono False.elim
    · rw [s.stream_update_of_ne _ hother]
      exact (h conn).mono fun hreported => ⟨hother, hreported⟩

/-! ## Over a run -/

theorem Tidy.step {s : State} {input : Input} (h : Tidy s) (hp : Permitted s input) :
    Tidy (step s input) := by
  cases input with
  | wait batch => exact h.epollWait hp.2.2.2.2.1 hp.2.2.2.2.2
  | event =>
    rw [ServerFinal.step]
    cases hpending : s.pending with
    | nil => exact absurd hpending hp.2
    | cons fd rest =>
      have hpopped : Tidy { s with pending := rest } := by
        refine h.of_same rfl rfl rfl ?_ (Nat.le_refl _) fun _ => rfl
        rw [hpending]
        exact List.sublist_cons_self fd rest
      dsimp only
      rw [handleEvent]
      split
      · exact hpopped.of_same rfl rfl rfl (List.Sublist.refl _) (Nat.le_refl _) fun _ => rfl
      · rename_i hne
        have hmem : fd ∈ s.kernel.sockets :=
          h.pending fd (hpending ▸ List.mem_cons_self) hne
        have hnew : fd ∉ rest := (List.nodup_cons.mp (hpending ▸ h.nodup)).1
        rw [if_pos (h.registered fd hmem).2]
        exact hpopped.handleClient hmem hnew
  | accept clientFd =>
    cases clientFd with
    | none => exact h.of_same rfl rfl rfl (List.Sublist.refl _) (Nat.le_refl _) fun _ => rfl
    | some fd => exact h.accept (hp.2 fd rfl)
  | signal =>
    exact h.of_same rfl rfl rfl (List.Sublist.refl _) (Nat.le_refl _) fun _ => rfl
  | establish =>
    exact h.of_same rfl rfl rfl (List.Sublist.refl _) (Nat.le_succ _) fun _ => rfl
  | send conn bytes => exact h.update conn (·.send bytes) fun _ => rfl
  | finish conn => exact h.update conn Stream.finish fun _ => rfl
  | arrive conn size => exact h.update conn (·.arrive size) fun _ => rfl
  | arriveFin conn => exact h.update conn Stream.arriveFin fun _ => rfl

theorem alert_step_iff {s : State} {input : Input} (htidy : Tidy s) (hp : Permitted s input)
    (h : Alert s) : Alert (step s input) ↔ Drains s input := by
  cases input with
  | wait batch => exact iff_of_true (h.epollWait hp.2.2.1 batch) trivial
  | event =>
    rw [ServerFinal.step, Drains]
    cases hpending : s.pending with
    | nil => exact absurd hpending hp.2
    | cons fd rest =>
      dsimp only
      rw [handleEvent]
      split
      · rename_i hserver
        have hfirst : s.pending = s.serverFd :: rest :=
          hpending.trans (congrArg (· :: rest) hserver)
        have hserved : Alert { s with pending := rest, accepting := true } :=
          alert_event_server hfirst h
        exact iff_of_true hserved (.inl hserver)
      · rename_i hne
        have hmem : fd ∈ s.kernel.sockets :=
          htidy.pending fd (hpending ▸ List.mem_cons_self) hne
        rw [if_pos (htidy.registered fd hmem).2, or_iff_right hne]
        exact alert_handleClient_iff htidy hpending hne h
  | accept clientFd =>
    refine iff_of_true ?_ trivial
    cases clientFd with
    | none => exact h
    | some fd => exact h.accept htidy (hp.2 fd rfl)
  | signal | establish => exact iff_of_true h trivial
  | send conn bytes =>
    exact iff_of_true (h.update conn (·.send bytes) fun _ hc => hc.send hp.2 bytes) trivial
  | finish conn => exact iff_of_true (h.update conn Stream.finish fun _ hc => hc.finish) trivial
  | arrive conn size =>
    exact iff_of_true (h.update conn (·.arrive size) fun _ hc => hc.arrive size) trivial
  | arriveFin conn =>
    exact iff_of_true (h.update conn Stream.arriveFin fun _ hc => hc.arriveFin hp.1 hp.2.2) trivial

theorem always_tidy (x : Run) : x.Always Tidy := by
  apply x.invariant (P := Tidy)
  · rintro _ ⟨serverFd, rfl⟩
    exact tidy_start serverFd
  · exact fun s input hp h => h.step hp

/-- The reads of a run drain what they find exactly when every connection with something
to see will be woken in every state. -/
theorem always_alert_iff (x : Run) : x.Always Alert ↔ x.EachStep Drains := by
  apply x.always_iff_eachStep (J := Tidy)
  · rintro _ ⟨serverFd, rfl⟩
    exact ⟨tidy_start serverFd, alert_start serverFd⟩
  · exact fun s input hp h _ _ => h.step hp
  · exact fun s input hp htidy h => alert_step_iff htidy hp h

theorem Alert.allSettled {s : State} (h : Alert s) (htidy : Tidy s) (hquiet : Quiescent s) :
    AllSettled s := by
  intro conn hpos hle
  have hunreported : (s.stream conn).Healthy False := by
    refine (h conn).mono ?_
    rintro ⟨fd, hmem, _⟩
    rw [hquiet.pending] at hmem
    cases hmem
  apply hunreported.settled (hquiet.quiet conn ⟨hpos, hle.trans htidy.listening⟩)
  intro hopen
  obtain ⟨fd, hmem, rfl⟩ := htidy.held conn hpos hle hopen
  refine hquiet.served fd (htidy.registered fd hmem).1 ?_
  rintro rfl
  exact htidy.server hmem

/-- In every run whose reads drain what they find, each quiescent state has every
accepted connection settled. -/
theorem settled_of_drains (x : Run) (h : x.EachStep Drains) :
    x.Always fun s => Quiescent s → AllSettled s :=
  fun n hquiet => ((always_alert_iff x).mpr h n).allSettled (always_tidy x n) hquiet

def hello : List UInt8 := [84, 67, 80, 58, 49, 32, 124, 32, 80, 65, 67, 75, 69, 84, 58, 49, 10]

/-- Descriptor 3 listens. One connection is established and accepted as descriptor 5. -/
def acceptOne : List Input :=
  [.establish, .wait [3], .event, .accept (some 5), .accept none]

/-- The FIN comes after the event for the data has been handled. -/
def finLater : List Input :=
  acceptOne ++ [.send 1 hello, .finish 1, .arrive 1 17, .wait [5], .event, .arriveFin 1,
    .wait [5], .event]

theorem initial_start : Initial (start 3) := ⟨3, rfl⟩

theorem permitted_finLater : Along step Permitted (start 3) finLater := by decide

def finLaterRun : Run := ⟨start 3, finLater, initial_start, permitted_finLater⟩

theorem settled_finLater : (finLaterRun.final.stream 1).Settled := by
  have hdrains : finLaterRun.EachStep Drains := by
    rw [Execution.EachStep]
    decide
  have hquiet : Quiescent finLaterRun.final := by decide
  exact (settled_of_drains finLaterRun hdrains).final hquiet 1 (by decide) (by decide)

/-- The data and the FIN arrive under one edge. -/
def finWithData : List Input :=
  acceptOne ++ [.send 1 hello, .finish 1, .arrive 1 17, .arriveFin 1, .wait [5], .event]

theorem permitted_finWithData : Along step Permitted (start 3) finWithData := by decide

def finWithDataRun : Run := ⟨start 3, finWithData, initial_start, permitted_finWithData⟩

theorem unsettled_finWithData :
    ¬finWithDataRun.Always fun s => Quiescent s → AllSettled s := by
  intro hsettled
  have hquiet : Quiescent finWithDataRun.final := by decide
  have hfirst : (finWithDataRun.final.stream 1).Settled :=
    hsettled.final hquiet 1 (by decide) (by decide)
  have hopen : (finWithDataRun.final.stream 1).closed = false := by decide
  rw [hfirst.fin (by decide)] at hopen
  cases hopen

end ConnectionOrder.ServerFinal
