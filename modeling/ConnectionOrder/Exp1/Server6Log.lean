import ConnectionOrder.Exp1.Records
import ConnectionOrder.Keyed

/-!
# The log of server6

All connections write to one log. A connection is told by the address of its record,
which counts the accepted connections, since descriptors are used again.
-/

namespace ConnectionOrder.RecordLoop

open Machine Memory Keyed Lines
open Server6 (Connection Entry)

/-- The address and the descriptor of a connection that this step accepts. -/
def opened (s : Option (State Connection (List Entry))) (i : Input Server6.bufferSize) :
    List (Nat × Fd) :=
  match s, i with
  | some s, .accept (some clientFd) => [(s.allocated, clientFd)]
  | _, _ => []

/-- The record that this step calls handle_connection on, with what recv returns there. -/
def delivered (s : Option (State Connection (List Entry))) (i : Input Server6.bufferSize) :
    List (Nat × Recv Server6.bufferSize) :=
  match s, i with
  | some s, .event received =>
    match s.pending with
    | [] => []
    | fd :: _ =>
      if fd = s.serverFd then []
      else (readAt s.connections fd).join.toList.map fun address => (address, received)
  | _, _ => []

/-- The entries that this step writes, with the record each is written for. -/
def written (s : Option (State Connection (List Entry))) (i : Input Server6.bufferSize) :
    List (Nat × Entry) :=
  (delivered s i).flatMap fun p =>
    (Server6.logged (s.bind fun s => s.heap p.1) p.2).map (Prod.mk p.1)

/-- What recv returned for the record at `address`, in order. -/
def received (x : Run server6) (address : Nat) : List (Recv Server6.bufferSize) :=
  select address (x.observed delivered)

/-! ## One record at a time -/

/-- calloc makes a record, and handle_connection does with it what it does. -/
def recordStep (conn : Option Connection) : Fd ⊕ Recv Server6.bufferSize → Option Connection
  | .inl clientFd => some (Connection.new clientFd)
  | .inr received => Server6.step conn received

def recordLogged (conn : Option Connection) : Fd ⊕ Recv Server6.bufferSize → List Entry
  | .inl _ => []
  | .inr received => Server6.logged conn received

def recordPermitted (conn : Option Connection) : Fd ⊕ Recv Server6.bufferSize → Prop
  | .inl _ => True
  | .inr received => Server6.Permitted conn received

def touched (s : Option (State Connection (List Entry))) (i : Input Server6.bufferSize) :
    List (Nat × (Fd ⊕ Recv Server6.bufferSize)) :=
  (opened s i).map (fun p => (p.1, .inl p.2)) ++ (delivered s i).map fun p => (p.1, .inr p.2)

/-- A step changes the heap and the log as the records it touches do. -/
structure Touches (s s' : State Connection (List Entry)) (i : Input Server6.bufferSize) : Prop where
  heap : s'.heap = run (stepAt recordStep) s.heap (touched (some s) i)
  shared : s'.shared = s.shared ++ (written (some s) i).map Prod.snd
  written : written (some s) i =
    collect (stepAt recordStep) (outAt recordLogged) s.heap (touched (some s) i)
  allocated : s'.allocated = s.allocated + (opened (some s) i).length
  permitted : Along (stepAt recordStep) (fun f p => recordPermitted (f p.1) p.2) s.heap
    (touched (some s) i)
  known : ∀ p ∈ delivered (some s) i, (s.heap p.1).isSome = true

/-- A step that accepts nothing and calls handle_connection on nothing. -/
theorem touches_of_none {s s' : State Connection (List Entry)} {i : Input Server6.bufferSize}
    (hopened : opened (some s) i = []) (hdelivered : delivered (some s) i = [])
    (hheap : s'.heap = s.heap) (hshared : s'.shared = s.shared)
    (hallocated : s'.allocated = s.allocated) : Touches s s' i := by
  have htouched : touched (some s) i = [] := by
    rw [touched, hopened, hdelivered]
    rfl
  have hwritten : written (some s) i = [] := by
    rw [written, hdelivered]
    rfl
  constructor
  · rw [htouched]
    exact hheap
  · rw [hwritten]
    exact hshared.trans (List.append_nil _).symm
  · rw [htouched]
    exact hwritten
  · rw [hopened]
    exact hallocated
  · rw [htouched]
    exact trivial
  · rw [hdelivered]
    exact fun _ hmem => absurd hmem List.not_mem_nil

theorem touches_of_delivered {s : State Connection (List Entry)} {rest : List Fd} {address : Nat}
    {conn : Connection} {received : Recv Server6.bufferSize} (hconn : s.heap address = some conn)
    (hdelivered : delivered (some s) (.event received) = [(address, received)])
    (hpermitted : Server6.Permitted (some conn) received) :
    Touches s (handleRecord server6 { s with pending := rest } address conn received)
      (.event received) := by
  have htouched : touched (some s) (.event received) = [(address, .inr received)] := by
    rw [touched, hdelivered]
    rfl
  have hwritten : written (some s) (.event received) =
      (Server6.handleConnection conn received).2.map (Prod.mk address) := by
    rw [written, hdelivered, List.flatMap_singleton, Option.bind_some, hconn]
    rfl
  constructor
  · rw [htouched, run_cons, run_nil, stepAt, hconn]
    rfl
  · rw [hwritten, List.map_map]
    change s.shared ++ (Server6.handleConnection conn received).2 =
      s.shared ++ (Server6.handleConnection conn received).2.map id
    rw [List.map_id]
  · rw [hwritten, htouched, collect, collect, outAt, hconn, List.append_nil]
    rfl
  · rfl
  · rw [htouched]
    refine ⟨?_, trivial⟩
    change recordPermitted (s.heap address) (.inr received)
    rw [hconn]
    exact hpermitted
  · rw [hdelivered]
    intro p hmem
    rw [List.mem_singleton.mp hmem, hconn]
    rfl

theorem permitted_of_recvObeyed {s : State Connection (List Entry)} {fd : Fd} {address : Nat}
    {conn : Connection} {received : Recv Server6.bufferSize}
    (hobeyed : RecvObeyed server6 s fd received)
    (hread : readAt s.connections fd = some (some address)) (hconn : s.heap address = some conn) :
    Server6.Permitted (some conn) received := by
  cases received with
  | data chunk =>
    have hpointer : address ∈ (readAt s.connections fd).join := by
      rw [hread]
      rfl
    exact hobeyed address hpointer conn hconn
  | eof | again | error => trivial

theorem event_touches {s s' : State Connection (List Entry)} {received : Recv Server6.bufferSize}
    (hp : Allowed server6 s (.event received)) (hact : act server6 s (.event received) = some s') :
    Touches s s' (.event received) := by
  obtain ⟨_, _, hobeyed⟩ := hp
  rw [act] at hact
  cases hpend : s.pending with
  | nil =>
    rw [hpend] at hact
    cases hact
    apply touches_of_none rfl _ rfl rfl rfl
    rw [delivered, hpend]
  | cons fd rest =>
    rw [hpend] at hact
    dsimp only [handleEvent] at hact
    have hdelivered : delivered (some s) (.event received) = if fd = s.serverFd then [] else
        (readAt s.connections fd).join.toList.map fun address => (address, received) := by
      rw [delivered, hpend]
    by_cases hserver : fd = s.serverFd
    · rw [if_pos hserver] at hact hdelivered
      cases hact
      exact touches_of_none rfl hdelivered rfl rfl rfl
    · rw [if_neg hserver] at hact hdelivered
      obtain ⟨pointer, hread, hact⟩ := Option.bind_eq_some_iff.mp hact
      rw [hread] at hdelivered
      cases pointer with
      | none =>
        cases hact
        exact touches_of_none rfl hdelivered rfl rfl rfl
      | some address =>
        obtain ⟨conn, hconn, rfl⟩ := Option.map_eq_some_iff.mp hact
        apply touches_of_delivered hconn hdelivered
        exact permitted_of_recvObeyed (hobeyed fd (by rw [hpend]; rfl)) hread hconn

theorem act_touches {s s' : State Connection (List Entry)} {i : Input Server6.bufferSize}
    (hp : Allowed server6 s i) (hact : act server6 s i = some s') : Touches s s' i := by
  cases i with
  | wait batch | signal =>
    cases hact
    exact touches_of_none rfl rfl rfl rfl rfl
  | accept clientFd =>
    cases clientFd with
    | none =>
      cases hact
      exact touches_of_none rfl rfl rfl rfl rfl
    | some clientFd =>
      rw [act, accept4] at hact
      obtain ⟨connections, _, rfl⟩ := Option.map_eq_some_iff.mp hact
      exact ⟨rfl, (List.append_nil _).symm, rfl, rfl, ⟨trivial, trivial⟩,
        fun _ hmem => absurd hmem List.not_mem_nil⟩
  | event received => exact event_touches hp hact

/-! ## Every run -/

/-- What has been observed of the connections, and the state that it leads to. -/
structure Followed (opens : List (Nat × Fd)) (deliveries : List (Nat × Recv Server6.bufferSize))
    (writes : List (Nat × Entry)) (trace : List (Nat × (Fd ⊕ Recv Server6.bufferSize)))
    (s : State Connection (List Entry)) : Prop where
  heap : s.heap = run (stepAt recordStep) (fun _ => none) trace
  shared : s.shared = writes.map Prod.snd
  entries : writes = collect (stepAt recordStep) (outAt recordLogged) (fun _ => none) trace
  permitted : Along (stepAt recordStep) (fun f p => recordPermitted (f p.1) p.2) (fun _ => none)
    trace
  fresh : ∀ address, s.allocated ≤ address →
    select address trace = [] ∧ select address deliveries = []
  record : ∀ address fd, (address, fd) ∈ opens →
    select address trace = .inl fd :: (select address deliveries).map .inr
  made : ∀ address, address < s.allocated → ∃ fd, (address, fd) ∈ opens
  owner : ∀ p ∈ writes, p.1 < s.allocated

theorem select_touched (s : Option (State Connection (List Entry)))
    (i : Input Server6.bufferSize) (address : Nat) :
    select address (touched s i) =
      (select address (opened s i)).map .inl ++ (select address (delivered s i)).map .inr := by
  rw [touched, select_append, select_map, select_map]

theorem opened_cases (s : State Connection (List Entry)) (i : Input Server6.bufferSize) :
    opened (some s) i = [] ∨
      ∃ fd, opened (some s) i = [(s.allocated, fd)] ∧ delivered (some s) i = [] := by
  cases i with
  | wait batch | event received | signal => exact .inl rfl
  | accept clientFd =>
    cases clientFd with
    | none => exact .inl rfl
    | some clientFd => exact .inr ⟨clientFd, rfl, rfl⟩

variable {opens : List (Nat × Fd)} {deliveries : List (Nat × Recv Server6.bufferSize)}
variable {writes : List (Nat × Entry)} {trace : List (Nat × (Fd ⊕ Recv Server6.bufferSize))}
variable {s s' : State Connection (List Entry)} {i : Input Server6.bufferSize}

theorem Followed.delivered_lt (h : Followed opens deliveries writes trace s)
    (ht : Touches s s' i) {p : Nat × Recv Server6.bufferSize} (hmem : p ∈ delivered (some s) i) :
    p.1 < s.allocated := by
  by_contra hge
  have hlive := ht.known p hmem
  rw [h.heap, run_stepAt, (h.fresh p.1 (Nat.le_of_not_lt hge)).1] at hlive
  cases hlive

theorem Followed.select_delivered (h : Followed opens deliveries writes trace s)
    (ht : Touches s s' i) {address : Nat} (hge : s.allocated ≤ address) :
    select address (delivered (some s) i) = [] := by
  rw [select, List.map_eq_nil_iff, List.filter_eq_nil_iff]
  intro p hmem hsame
  have hlt := h.delivered_lt ht hmem
  rw [of_decide_eq_true hsame] at hlt
  exact absurd hlt (Nat.not_lt.mpr hge)

theorem Followed.step (h : Followed opens deliveries writes trace s) (ht : Touches s s' i) :
    Followed (opens ++ opened (some s) i) (deliveries ++ delivered (some s) i)
      (writes ++ written (some s) i) (trace ++ touched (some s) i) s' := by
  constructor
  · rw [ht.heap, h.heap, run_append]
  · rw [ht.shared, h.shared, List.map_append]
  · rw [collect_append, ← h.entries, ← h.heap, ht.written]
  · rw [along_append, ← h.heap]
    exact ⟨h.permitted, ht.permitted⟩
  · intro address hge
    rw [ht.allocated] at hge
    have hold : s.allocated ≤ address := Nat.le_trans (Nat.le_add_right _ _) hge
    obtain ⟨htrace, hdeliveries⟩ := h.fresh address hold
    have hnone := h.select_delivered ht hold
    have hopened : select address (opened (some s) i) = [] := by
      rcases opened_cases s i with hopened | ⟨fd, hopened, _⟩
      · rw [hopened]
        rfl
      · rw [hopened] at hge ⊢
        exact select_cons_of_ne (Nat.ne_of_lt hge) fd []
    rw [select_append, select_append, select_touched, htrace, hdeliveries, hnone, hopened]
    exact ⟨rfl, rfl⟩
  · intro address fd hmem
    rw [select_append, select_append, select_touched]
    rcases List.mem_append.mp hmem with hold | hnew
    · have hrecord := h.record address fd hold
      have hlt : address < s.allocated := by
        by_contra hge
        rw [(h.fresh address (Nat.le_of_not_lt hge)).1] at hrecord
        cases hrecord
      have hopened : select address (opened (some s) i) = [] := by
        rcases opened_cases s i with hopened | ⟨fd, hopened, _⟩
        · rw [hopened]
          rfl
        · rw [hopened]
          exact select_cons_of_ne (Nat.ne_of_gt hlt) fd []
      rw [hrecord, hopened, List.map_append]
      rfl
    · rcases opened_cases s i with hopened | ⟨clientFd, hopened, hdelivered⟩
      · rw [hopened] at hnew
        cases hnew
      · rw [hopened] at hnew ⊢
        cases List.mem_singleton.mp hnew
        obtain ⟨htrace, hdeliveries⟩ := h.fresh s.allocated (Nat.le_refl _)
        rw [htrace, hdeliveries, hdelivered, select_cons_self]
        rfl
  · intro address hlt
    rw [ht.allocated] at hlt
    rcases opened_cases s i with hopened | ⟨fd, hopened, _⟩
    · rw [hopened] at hlt ⊢
      rw [List.append_nil]
      exact h.made address hlt
    · rw [hopened] at hlt ⊢
      rcases Nat.lt_succ_iff_lt_or_eq.mp hlt with hold | rfl
      · obtain ⟨fd', hmem⟩ := h.made address hold
        exact ⟨fd', List.mem_append_left _ hmem⟩
      · exact ⟨fd, List.mem_append_right _ List.mem_cons_self⟩
  · intro p hmem
    rw [ht.allocated]
    apply Nat.lt_add_right
    rcases List.mem_append.mp hmem with hold | hnew
    · exact h.owner p hold
    · obtain ⟨q, hq, hentry⟩ := List.mem_flatMap.mp hnew
      obtain ⟨entry, _, rfl⟩ := List.mem_map.mp hentry
      exact h.delivered_lt ht hq

theorem followed_run (x : Run server6) {s : State Connection (List Entry)}
    (hs : x.final = some s) :
    Followed (x.observed opened) (x.observed delivered) (x.observed written)
      (x.observed touched) s := by
  revert s
  apply x.history_induction (P := fun is => ∀ {s}, run (step server6) x.start is = some s →
    Followed (collect (step server6) opened x.start is)
      (collect (step server6) delivered x.start is) (collect (step server6) written x.start is)
      (collect (step server6) touched x.start is) s)
  · intro s hs
    obtain ⟨serverFd, _, hstart⟩ := x.begins
    rw [run_nil, hstart] at hs
    cases hs
    exact ⟨rfl, rfl, rfl, trivial, fun _ _ => ⟨rfl, rfl⟩,
      fun _ _ hmem => absurd hmem List.not_mem_nil, fun _ hlt => absurd hlt (Nat.not_lt_zero _),
      fun _ hmem => absurd hmem List.not_mem_nil⟩
  · rintro is i _ ⟨before, hbefore, hp⟩ ih s hs
    rw [Option.mem_def] at hbefore
    rw [run_snoc, hbefore] at hs
    rw [collect_snoc, collect_snoc, collect_snoc, collect_snoc, hbefore]
    exact (ih hbefore).step (act_touches hp hs)

theorem opened_of_written (x : Run server6) {s : State Connection (List Entry)}
    (hs : x.final = some s) {p : Nat × Entry} (hmem : p ∈ x.observed written) :
    ∃ fd, (p.1, fd) ∈ x.observed opened := by
  have h := followed_run x hs
  exact h.made p.1 (h.owner p hmem)

theorem entries_of_record (x : Run server6) {s : State Connection (List Entry)}
    (hs : x.final = some s) {address : Nat} {fd : Fd} (hmem : (address, fd) ∈ x.observed opened)
    (hfits : Server6.Fits (Server6.stream (received x address))) :
    select address (x.observed written) =
      (lines Server6.newline (Server6.stream (received x address))).mapIdx
        fun i line => ⟨fd, i + 1, line⟩ := by
  have h := followed_run x hs
  have htrace := h.record address fd hmem
  have halong := along_stepAt recordStep recordPermitted _ _ h.permitted address
  rw [htrace] at halong
  let y : Server6.Run fd := ⟨some (Connection.new fd), received x address, rfl,
    (along_map Sum.inr _ _).mp halong.2⟩
  have hframed := (Server6.framed_run y hfits).log
  rw [h.entries, collect_outAt, htrace, collect]
  have hwritten : collect recordStep recordLogged (some (Connection.new fd))
      ((received x address).map .inr) = y.observed Server6.logged := collect_map Sum.inr _ _ _
  change [] ++ collect recordStep recordLogged (some (Connection.new fd))
    ((received x address).map .inr) = _
  rw [List.nil_append, hwritten, hframed, Server6.entries]
  congr 1
  funext i line
  rw [Int.zero_add]

/-- The entries in the log are those of the accepted connections, in any order. Told
apart by the address of the record, each one's entries are the lines of its own stream,
numbered from 1, whatever the others send and whatever descriptor they share with it at
other times. -/
theorem log_by_connection (x : Run server6) {s : State Connection (List Entry)}
    (hs : x.final = some s) :
    s.shared = (x.observed written).map Prod.snd ∧
    (∀ p ∈ x.observed written, ∃ fd, (p.1, fd) ∈ x.observed opened) ∧
    ∀ address fd, (address, fd) ∈ x.observed opened →
      Server6.Fits (Server6.stream (received x address)) →
      select address (x.observed written) =
        (lines Server6.newline (Server6.stream (received x address))).mapIdx
          fun i line => ⟨fd, i + 1, line⟩ := by
  have h := followed_run x hs
  exact ⟨h.shared, fun p hmem => opened_of_written x hs hmem,
    fun address fd hmem hfits => entries_of_record x hs hmem hfits⟩

/-- "c", newline -/
def lineC : Chunk Server6.bufferSize := ⟨[99, 10], by decide, by decide⟩

/-- "d", newline -/
def lineD : Chunk Server6.bufferSize := ⟨[100, 10], by decide, by decide⟩

/-- Descriptor 5 is accepted, closed and accepted again. -/
def sharedFd : List (Input Server6.bufferSize) :=
  [.wait [3], .event .again, .accept (some 5), .accept (some 6), .accept none,
   .wait [6, 5], .event (.data lineD), .event .eof,
   .wait [3], .event .again, .accept (some 5), .accept none, .wait [5], .event (.data lineC)]

/-- A record that has just been made has room for every chunk. -/
theorem allowed_first {s : State Connection (List Entry)} {fd clientFd : Fd} {rest : List Fd}
    (address : Nat) (chunk : Chunk Server6.bufferSize) (haccepting : s.accepting = false)
    (hpend : s.pending = fd :: rest) (hread : readAt s.connections fd = some (some address))
    (hconn : s.heap address = some (Connection.new clientFd)) :
    Allowed server6 s (.event (.data chunk)) := by
  refine ⟨haccepting, by rw [hpend]; exact List.cons_ne_nil _ _, fun fd' hfd => ?_⟩
  rw [hpend] at hfd
  cases hfd
  intro address' haddress conn hconn'
  rw [hread] at haddress
  cases haddress
  rw [Option.mem_def, hconn] at hconn'
  cases hconn'
  exact chunk.bound

theorem permitted_sharedFd :
    Along (step server6) (Permitted server6) (some (start server6 3)) sharedFd := by
  refine ⟨⟨_, rfl, rfl, rfl, rfl, by decide, by decide, by with_unfolding_all decide⟩, ?_⟩
  refine ⟨⟨_, rfl, rfl, by decide, fun _ _ => trivial⟩, ?_⟩
  refine ⟨⟨_, rfl, rfl, by with_unfolding_all decide⟩, ?_⟩
  refine ⟨⟨_, rfl, rfl, by with_unfolding_all decide⟩, ?_⟩
  refine ⟨⟨_, rfl, rfl, by with_unfolding_all decide⟩, ?_⟩
  refine ⟨⟨_, rfl, rfl, rfl, rfl, by decide, by decide, by with_unfolding_all decide⟩, ?_⟩
  refine ⟨⟨_, rfl, allowed_first 1 lineD rfl rfl rfl rfl⟩, ?_⟩
  refine ⟨⟨_, rfl, rfl, by with_unfolding_all decide, fun _ _ => trivial⟩, ?_⟩
  refine ⟨⟨_, rfl, rfl, rfl, rfl, by decide, by decide, by with_unfolding_all decide⟩, ?_⟩
  refine ⟨⟨_, rfl, rfl, by with_unfolding_all decide, fun _ _ => trivial⟩, ?_⟩
  refine ⟨⟨_, rfl, rfl, by with_unfolding_all decide⟩, ?_⟩
  refine ⟨⟨_, rfl, rfl, by with_unfolding_all decide⟩, ?_⟩
  refine ⟨⟨_, rfl, rfl, rfl, rfl, by decide, by decide, by with_unfolding_all decide⟩, ?_⟩
  exact ⟨⟨_, rfl, allowed_first 2 lineC rfl rfl rfl rfl⟩, trivial⟩

theorem initial_three : Initial server6 (some (start server6 3)) := ⟨3, by decide, rfl⟩

def sharedFdRun : Run server6 :=
  ⟨some (start server6 3), sharedFd, initial_three, permitted_sharedFd⟩

theorem log_by_connection_sharedFd :
    select 2 (sharedFdRun.observed written) = [⟨5, 1, [99]⟩] := by
  have hdefined : sharedFdRun.final.isSome = true := rfl
  obtain ⟨s, hs⟩ := Option.isSome_iff_exists.mp hdefined
  have hmem : (2, 5) ∈ sharedFdRun.observed opened := by with_unfolding_all decide
  have hreceived : received sharedFdRun 2 = [.data lineC] := by rfl
  have hlog := (log_by_connection sharedFdRun hs).2.2 2 5 hmem (by
    rw [hreceived]
    exact ⟨by decide, by decide, by decide⟩)
  rw [hlog, hreceived]
  decide

end ConnectionOrder.RecordLoop
