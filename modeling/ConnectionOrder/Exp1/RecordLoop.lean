import ConnectionOrder.Machine
import ConnectionOrder.Memory
import ConnectionOrder.Sockets

/-!
# The loop over heap records

main of server6, server7, server8 copy and server_final: an array of pointers indexed
by descriptors, and records from calloc that handle_connection frees while the array
keeps the pointer. An index outside the array and a read of a freed record have no
result. calloc returns a record, each time a new one: the source does not check for a
null pointer, and that none is returned is assumed.
-/

namespace ConnectionOrder.RecordLoop

open Machine Memory

def maxEvents : Nat := 1000

/-- What the servers differ in. `calloc` is the record with the assignments after it,
`room` the length handle_connection gives to recv; it returns `none` where it frees the
record. -/
structure Server (ρ σ : Type) (size : Nat) where
  maxConnections : Nat
  handlesSignal : Bool
  globals : σ
  calloc : Fd → ρ
  fd : ρ → Fd
  room : ρ → Nat
  handleConnection : ρ → σ → Recv size → Option ρ × σ
  fd_calloc : ∀ clientFd, fd (calloc clientFd) = clientFd
  fd_kept : ∀ conn shared received conn',
    (handleConnection conn shared received).1 = some conn' → fd conn' = fd conn

/-- `connections` holds addresses, `heap` what is at them, and `allocated` is the number of
calls of calloc, which is also the next address. -/
structure State (ρ σ : Type) where
  kernel : Kernel
  serverFd : Fd
  running : Bool
  pending : List Fd
  accepting : Bool
  connections : List (Option Nat)
  heap : Nat → Option ρ
  allocated : Nat
  shared : σ

inductive Input (size : Nat) where
  | wait (batch : List Fd)
  | event (received : Recv size)
  | accept (clientFd : Option Fd)
  | signal

variable {ρ σ : Type} {size : Nat}

def start (server : Server ρ σ size) (serverFd : Fd) : State ρ σ where
  kernel := { sockets := ∅, registered := {serverFd}, conn := fun _ => 0, accepted := 0 }
  serverFd := serverFd
  running := true
  pending := []
  accepting := false
  connections := List.replicate server.maxConnections none
  heap := fun _ => none
  allocated := 0
  shared := server.globals

/-! ## main -/

/-- One call of accept4, and calloc, the assignment and epoll_ctl after it. -/
def accept4 (server : Server ρ σ size) (s : State ρ σ) : Option Fd → Option (State ρ σ)
  | none => some { s with accepting := false }
  | some clientFd =>
    (updateAt s.connections clientFd fun _ => some s.allocated).map fun connections =>
      { s with
        kernel := (s.kernel.accept clientFd).add clientFd
        connections := connections
        heap := Function.update s.heap s.allocated (some (server.calloc clientFd))
        allocated := s.allocated + 1 }

/-- handle_connection on the record `conn` at `address`, and its close and free. -/
def handleRecord (server : Server ρ σ size) (s : State ρ σ) (address : Nat) (conn : ρ)
    (received : Recv size) : State ρ σ :=
  let result := server.handleConnection conn s.shared received
  { s with
    heap := Function.update s.heap address result.1
    shared := result.2
    kernel := if result.1.isSome then s.kernel else s.kernel.close (server.fd conn) }

def handleEvent (server : Server ρ σ size) (s : State ρ σ) (fd : Fd) (received : Recv size) :
    Option (State ρ σ) :=
  if fd = s.serverFd then some { s with accepting := true }
  else (readAt s.connections fd).bind fun pointer =>
    match pointer with
    | none => some s
    | some address =>
      (s.heap address).map fun conn => handleRecord server s address conn received

def act (server : Server ρ σ size) (s : State ρ σ) : Input size → Option (State ρ σ)
  | .wait batch => some { s with pending := batch }
  | .event received =>
    match s.pending with
    | [] => some s
    | fd :: rest => handleEvent server { s with pending := rest } fd received
  | .accept clientFd => accept4 server s clientFd
  | .signal => some { s with running := false }

/-- `none` is undefined behaviour. -/
def step (server : Server ρ σ size) (s : Option (State ρ σ)) (i : Input size) :
    Option (State ρ σ) := s.bind fun s => act server s i

/-! ## What the environment may do -/

/-- recv fills at most the room it is given. -/
def RecvObeyed (server : Server ρ σ size) (s : State ρ σ) (fd : Fd) : Recv size → Prop
  | .data chunk => ∀ address ∈ (readAt s.connections fd).join, ∀ conn ∈ s.heap address,
      chunk.length ≤ server.room conn
  | .eof | .again | .error => True

/-- The fields that a permitted input is about. -/
def Allowed (server : Server ρ σ size) (s : State ρ σ) : Input size → Prop
  | .wait batch => s.running = true ∧ s.accepting = false ∧ s.pending = [] ∧
      batch.length ≤ maxEvents ∧ batch.Nodup ∧ ∀ fd ∈ batch, fd ∈ s.kernel.registered
  | .event received => s.accepting = false ∧ s.pending ≠ [] ∧
      ∀ fd ∈ s.pending.head?, RecvObeyed server s fd received
  | .accept clientFd => s.accepting = true ∧
      ∀ fd ∈ clientFd, 0 ≤ fd ∧ fd ≠ s.serverFd ∧ fd ∉ s.kernel.sockets
  | .signal => server.handlesSignal = true

def Permitted (server : Server ρ σ size) (s : Option (State ρ σ)) (i : Input size) : Prop :=
  ∃ s' ∈ s, Allowed server s' i

def Initial (server : Server ρ σ size) (s : Option (State ρ σ)) : Prop :=
  ∃ serverFd, 0 ≤ serverFd ∧ s = some (start server serverFd)

abbrev Run (server : Server ρ σ size) := Execution (step server) (Initial server) (Permitted server)

/-- accept4 returns a descriptor that indexes the array. -/
def InBounds (server : Server ρ σ size) (_ : Option (State ρ σ)) : Input size → Prop
  | .accept (some clientFd) => clientFd < server.maxConnections
  | .wait _ | .event _ | .accept none | .signal => True

/-! ## The records of the open connections -/

/-- The array points to the record of every descriptor that an event may name, the batch
names each at most once, and no other record is left. -/
structure Sound (server : Server ρ σ size) (s : State ρ σ) : Prop where
  array : s.connections.length = server.maxConnections
  listening : s.serverFd ∉ s.kernel.sockets
  nonneg : ∀ fd ∈ s.kernel.sockets, 0 ≤ fd
  served : ∀ fd ∈ s.kernel.registered, fd ≠ s.serverFd → fd ∈ s.kernel.sockets
  records : ∀ fd ∈ s.kernel.sockets, ∃ address conn,
    readAt s.connections fd = some (some address) ∧ s.heap address = some conn ∧
      server.fd conn = fd
  owned : ∀ address conn, s.heap address = some conn → server.fd conn ∈ s.kernel.sockets ∧
    readAt s.connections (server.fd conn) = some (some address)
  fresh : ∀ address, s.allocated ≤ address → s.heap address = none
  nodup : s.pending.Nodup
  pending : ∀ fd ∈ s.pending, fd ≠ s.serverFd → fd ∈ s.kernel.sockets

variable {server : Server ρ σ size} {s s' : State ρ σ}

theorem sound_start (serverFd : Fd) : Sound server (start server serverFd) where
  array := List.length_replicate
  listening := Finset.notMem_empty serverFd
  nonneg _ hmem := absurd hmem (Finset.notMem_empty _)
  served _ hmem hne := absurd (Finset.mem_singleton.mp hmem) hne
  records _ hmem := absurd hmem (Finset.notMem_empty _)
  owned _ _ hconn := by cases hconn
  fresh _ _ := rfl
  nodup := List.nodup_nil
  pending _ hmem := absurd hmem List.not_mem_nil

theorem Sound.wait (h : Sound server s) {batch : List Fd} (hnodup : batch.Nodup)
    (hbatch : ∀ fd ∈ batch, fd ∈ s.kernel.registered) :
    Sound server { s with pending := batch } where
  array := h.array
  listening := h.listening
  nonneg := h.nonneg
  served := h.served
  records := h.records
  owned := h.owned
  fresh := h.fresh
  nodup := hnodup
  pending fd hmem hne := h.served fd (hbatch fd hmem) hne

theorem Sound.rest (h : Sound server s) {fd : Fd} {rest : List Fd}
    (hpend : s.pending = fd :: rest) :
    Sound server { s with pending := rest } where
  array := h.array
  listening := h.listening
  nonneg := h.nonneg
  served := h.served
  records := h.records
  owned := h.owned
  fresh := h.fresh
  nodup := (List.nodup_cons.mp (hpend ▸ h.nodup)).2
  pending other hmem hne := h.pending other (hpend ▸ List.mem_cons_of_mem fd hmem) hne

/-- A record that is kept replaces the one at its address. -/
theorem Sound.keep (h : Sound server s) {address : Nat} {conn : ρ} {received : Recv size}
    (hconn : s.heap address = some conn)
    (hkept : (server.handleConnection conn s.shared received).1.isSome = true) :
    Sound server (handleRecord server s address conn received) := by
  obtain ⟨conn', hconn'⟩ := Option.isSome_iff_exists.mp hkept
  have hfd := server.fd_kept conn s.shared received conn' hconn'
  have hkernel : (handleRecord server s address conn received).kernel = s.kernel := by
    rw [handleRecord]
    exact if_pos hkept
  have hheap : (handleRecord server s address conn received).heap =
      Function.update s.heap address (some conn') := by
    rw [handleRecord, hconn']
  refine ⟨h.array, ?_, ?_, ?_, ?_, ?_, ?_, h.nodup, ?_⟩
  · rw [hkernel]
    exact h.listening
  · rw [hkernel]
    exact h.nonneg
  · rw [hkernel]
    exact h.served
  · rw [hkernel, hheap]
    intro fd hfd'
    obtain ⟨other, record, hread, hrecord, hsame⟩ := h.records fd hfd'
    rcases eq_or_ne other address with rfl | hne
    · rw [hconn] at hrecord
      cases hrecord
      exact ⟨other, conn', hread, Function.update_self _ _ _, hfd.trans hsame⟩
    · exact ⟨other, record, hread, (Function.update_of_ne hne _ _).trans hrecord, hsame⟩
  · rw [hkernel, hheap]
    intro other record hrecord
    rcases eq_or_ne other address with rfl | hne
    · rw [Function.update_self] at hrecord
      cases hrecord
      rw [hfd]
      exact h.owned other conn hconn
    · rw [Function.update_of_ne hne] at hrecord
      exact h.owned other record hrecord
  · rw [hheap]
    intro other hle
    have hnone := h.fresh other hle
    have hne : other ≠ address := by
      rintro rfl
      rw [hnone] at hconn
      cases hconn
    exact (Function.update_of_ne hne _ _).trans hnone
  · rw [hkernel]
    exact h.pending

/-- A record that is freed belonged to one descriptor only, which the batch does not
name again. -/
theorem Sound.release (h : Sound server s) {address : Nat} {conn : ρ} {received : Recv size}
    (hconn : s.heap address = some conn) (hpend : server.fd conn ∉ s.pending)
    (hfreed : (server.handleConnection conn s.shared received).1 = none) :
    Sound server (handleRecord server s address conn received) := by
  have hkernel : (handleRecord server s address conn received).kernel =
      s.kernel.close (server.fd conn) := by
    rw [handleRecord, hfreed]
    rfl
  have hheap : (handleRecord server s address conn received).heap =
      Function.update s.heap address none := by
    rw [handleRecord, hfreed]
  refine ⟨h.array, ?_, ?_, ?_, ?_, ?_, ?_, h.nodup, ?_⟩
  · rw [hkernel]
    exact fun hmem => h.listening (Finset.mem_of_mem_erase hmem)
  · rw [hkernel]
    exact fun fd hmem => h.nonneg fd (Finset.mem_of_mem_erase hmem)
  · rw [hkernel]
    intro fd hmem hne
    obtain ⟨hother, hregistered⟩ := Finset.mem_erase.mp hmem
    exact Finset.mem_erase.mpr ⟨hother, h.served fd hregistered hne⟩
  · rw [hkernel, hheap]
    intro fd hmem
    obtain ⟨hother, hopen⟩ := Finset.mem_erase.mp hmem
    obtain ⟨other, record, hread, hrecord, hsame⟩ := h.records fd hopen
    have hne : other ≠ address := by
      rintro rfl
      rw [hconn] at hrecord
      cases hrecord
      exact hother hsame.symm
    exact ⟨other, record, hread, (Function.update_of_ne hne _ _).trans hrecord, hsame⟩
  · rw [hkernel, hheap]
    intro other record hrecord
    rcases eq_or_ne other address with rfl | hne
    · rw [Function.update_self] at hrecord
      cases hrecord
    · rw [Function.update_of_ne hne] at hrecord
      obtain ⟨hopen, hread⟩ := h.owned other record hrecord
      refine ⟨Finset.mem_erase.mpr ⟨?_, hopen⟩, hread⟩
      intro hsame
      rw [hsame, (h.owned address conn hconn).2] at hread
      cases hread
      exact hne rfl
  · rw [hheap]
    intro other hle
    rcases eq_or_ne other address with rfl | hne
    · exact Function.update_self _ _ _
    · exact (Function.update_of_ne hne _ _).trans (h.fresh other hle)
  · rw [hkernel]
    intro fd hmem hne
    refine Finset.mem_erase.mpr ⟨?_, h.pending fd hmem hne⟩
    rintro rfl
    exact hpend hmem

theorem Sound.handleRecord (h : Sound server s) {address : Nat} {conn : ρ} (received : Recv size)
    (hconn : s.heap address = some conn) (hpend : server.fd conn ∉ s.pending) :
    Sound server (handleRecord server s address conn received) := by
  cases hresult : (server.handleConnection conn s.shared received).1 with
  | none => exact h.release hconn hpend hresult
  | some conn' => exact h.keep hconn (by rw [hresult]; rfl)

/-! ## One step -/

theorem Sound.accept (h : Sound server s) {clientFd : Fd} {connections : List (Option Nat)}
    (hnonneg : 0 ≤ clientFd) (hserver : clientFd ≠ s.serverFd) (hnew : clientFd ∉ s.kernel.sockets)
    (hwrite : updateAt s.connections clientFd (fun _ => some s.allocated) = some connections) :
    Sound server { s with
      kernel := (s.kernel.accept clientFd).add clientFd
      connections := connections
      heap := Function.update s.heap s.allocated (some (server.calloc clientFd))
      allocated := s.allocated + 1 } := by
  obtain ⟨hlength, hself, hother⟩ := readAt_updateAt hwrite
  refine ⟨hlength.trans h.array, ?_, ?_, ?_, ?_, ?_, ?_, h.nodup, ?_⟩
  · intro hmem
    exact (Finset.mem_insert.mp hmem).elim (fun heq => hserver heq.symm) h.listening
  · intro fd hmem
    rcases Finset.mem_insert.mp hmem with rfl | hold
    · exact hnonneg
    · exact h.nonneg fd hold
  · intro fd hmem hne
    rcases Finset.mem_insert.mp hmem with rfl | hold
    · exact Finset.mem_insert_self _ _
    · exact Finset.mem_insert_of_mem (h.served fd hold hne)
  · intro fd hmem
    rcases eq_or_ne fd clientFd with rfl | hne
    · exact ⟨s.allocated, server.calloc fd, hself, Function.update_self _ _ _, server.fd_calloc fd⟩
    · obtain ⟨address, conn, hread, hconn, hfd⟩ :=
        h.records fd ((Finset.mem_insert.mp hmem).resolve_left hne)
      have hold : address ≠ s.allocated := by
        rintro rfl
        rw [h.fresh _ (Nat.le_refl _)] at hconn
        cases hconn
      exact ⟨address, conn, (hother fd hne).trans hread,
        (Function.update_of_ne hold _ _).trans hconn, hfd⟩
  · intro address conn hconn
    dsimp only at hconn ⊢
    rcases eq_or_ne address s.allocated with rfl | hne
    · rw [Function.update_self] at hconn
      cases hconn
      rw [server.fd_calloc]
      exact ⟨Finset.mem_insert_self _ _, hself⟩
    · rw [Function.update_of_ne hne] at hconn
      obtain ⟨hopen, hread⟩ := h.owned address conn hconn
      have hold : server.fd conn ≠ clientFd := fun hsame => hnew (hsame ▸ hopen)
      exact ⟨Finset.mem_insert_of_mem hopen, (hother _ hold).trans hread⟩
  · intro address hle
    have hne : address ≠ s.allocated := Nat.ne_of_gt hle
    exact (Function.update_of_ne hne _ _).trans (h.fresh address (Nat.le_of_succ_le hle))
  · intro fd hmem hne
    exact Finset.mem_insert_of_mem (h.pending fd hmem hne)

/-- What a permitted step does to a sound state: it goes wrong only where accept4 returns
a descriptor that the array does not have. -/
theorem act_spec (h : Sound server s) {i : Input size} (hp : Allowed server s i) :
    (InBounds server (some s) i ∧ ∃ s', act server s i = some s' ∧ Sound server s') ∨
      (¬InBounds server (some s) i ∧ act server s i = none) := by
  cases i with
  | wait batch =>
    obtain ⟨_, _, _, _, hnodup, hbatch⟩ := hp
    exact .inl ⟨trivial, _, rfl, h.wait hnodup hbatch⟩
  | signal =>
    exact .inl ⟨trivial, _, rfl, h.array, h.listening, h.nonneg, h.served, h.records, h.owned,
      h.fresh, h.nodup, h.pending⟩
  | accept clientFd =>
    cases clientFd with
    | none =>
      exact .inl ⟨trivial, _, rfl, h.array, h.listening, h.nonneg, h.served, h.records, h.owned,
        h.fresh, h.nodup, h.pending⟩
    | some clientFd =>
      obtain ⟨hnonneg, hserver, hnew⟩ := hp.2 clientFd rfl
      have hnone : updateAt s.connections clientFd (fun _ => some s.allocated) = none ↔ _ :=
        updateAt_eq_none_iff hnonneg _
      rw [h.array] at hnone
      rw [InBounds, act, accept4]
      cases hwrite : updateAt s.connections clientFd fun _ => some s.allocated with
      | none => exact .inr ⟨not_lt.mpr (hnone.mp hwrite), rfl⟩
      | some connections =>
        refine .inl ⟨?_, _, rfl, h.accept hnonneg hserver hnew hwrite⟩
        by_contra hle
        rw [hnone.mpr (not_lt.mp hle)] at hwrite
        cases hwrite
  | event received =>
    refine .inl ⟨trivial, ?_⟩
    rw [act]
    cases hpend : s.pending with
    | nil => exact ⟨s, rfl, h⟩
    | cons fd rest =>
      have hrest := h.rest hpend
      dsimp only
      rw [handleEvent]
      split
      · exact ⟨_, rfl, hrest.array, hrest.listening, hrest.nonneg, hrest.served, hrest.records,
          hrest.owned, hrest.fresh, hrest.nodup, hrest.pending⟩
      · rename_i hclient
        have hopen := h.pending fd (hpend ▸ List.mem_cons_self) hclient
        obtain ⟨address, conn, hread, hconn, hfd⟩ := h.records fd hopen
        dsimp only at hclient ⊢
        rw [hread, Option.bind_some]
        dsimp only
        rw [hconn, Option.map_some]
        refine ⟨_, rfl, hrest.handleRecord received hconn ?_⟩
        rw [hfd]
        exact (List.nodup_cons.mp (hpend ▸ h.nodup)).1

def Defined (server : Server ρ σ size) (s : Option (State ρ σ)) : Prop :=
  ∃ s' ∈ s, Sound server s'

theorem defined_start {s : Option (State ρ σ)} (h : Initial server s) : Defined server s := by
  obtain ⟨serverFd, _, rfl⟩ := h
  exact ⟨_, rfl, sound_start serverFd⟩

theorem defined_step_iff {s : Option (State ρ σ)} {i : Input size} (hp : Permitted server s i)
    (h : Defined server s) : Defined server (step server s i) ↔ InBounds server s i := by
  obtain ⟨s', rfl, hp⟩ := hp
  obtain ⟨_, hs, hsound⟩ := h
  cases hs
  change Defined server (act server s' i) ↔ _
  rcases act_spec hsound hp with ⟨hin, next, hact, hnext⟩ | ⟨hout, hact⟩
  · rw [hact]
    exact iff_of_true ⟨next, rfl, hnext⟩ hin
  · rw [hact]
    refine iff_of_false ?_ hout
    rintro ⟨_, hnone, _⟩
    cases hnone

/-- Every index is one of the array and every record read is allocated, in every run,
exactly as long as accept4 returns descriptors below MAX_CONNECTIONS. -/
theorem defined_iff_inBounds (x : Run server) :
    x.Always (Defined server) ↔ x.EachStep (InBounds server) := by
  apply x.always_iff_eachStep (J := fun _ => True)
  · exact fun s h => ⟨trivial, defined_start h⟩
  · exact fun _ _ _ _ _ _ => trivial
  · exact fun s i hp _ h => defined_step_iff hp h

end ConnectionOrder.RecordLoop
