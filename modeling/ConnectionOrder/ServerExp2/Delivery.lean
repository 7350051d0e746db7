import ConnectionOrder.Machine
import ConnectionOrder.ServerExp2.Loop

/-!
# What becomes of received data in serverexp2

Data is counted only while exactly two accepts have been attempted; at any other
time the connection that sent it is closed as if recv had failed. The first two
connections are recognized by descriptor, so a second connection that is given
the descriptor of the first is counted as the first.
-/

namespace ConnectionOrder.ServerExp2

open Machine

def Initial (s : State) : Prop := ∃ serverFd, 0 ≤ serverFd ∧ s = start serverFd

/-- epoll_wait is called only while running and with no event left; a batch has
at most one event for each registered descriptor. accept returns a descriptor
that is not open, recv on a closed one fails. -/
def Permitted (s : State) : Input → Prop
  | .wait batch => s.running = true ∧ s.pending = [] ∧
      ∀ fds ∈ batch, fds.Nodup ∧ fds.length ≤ maxEvents ∧ ∀ fd ∈ fds, fd ∈ s.kernel.registered
  | .event answers =>
    match s.pending with
    | [] => False
    | eventFd :: _ =>
      if eventFd = s.serverFd then
        ∀ fd ∈ answers.accept, 0 ≤ fd ∧ fd ≠ s.serverFd ∧ fd ∉ s.kernel.sockets
      else eventFd ∉ s.kernel.sockets → answers.recv.isError = true
  | .signal => True

instance (s : State) : (i : Input) → Decidable (Permitted s i)
  | .wait _ => inferInstanceAs (Decidable (_ ∧ _ ∧ _))
  | .event answers => by
    unfold Permitted
    cases s.pending with
    | nil => exact .isFalse id
    | cons eventFd rest => exact inferInstanceAs (Decidable (ite _ _ _))
  | .signal => .isTrue trivial

abbrev Run := Execution step Initial Permitted

/-- `place` is an accepted connection and whether its record and its registration
succeeded, `ended` a recv that returned 0 or an error. -/
inductive Action where
  | quiet
  | place (fd : Fd) (setUp : Bool)
  | data (fd : Fd) (chunk : Chunk bufferSize)
  | ended (fd : Fd)

def action (s : State) : Input → Action
  | .event answers =>
    match s.pending with
    | [] => .quiet
    | eventFd :: _ =>
      if eventFd = s.serverFd then
        match answers.accept with
        | none => .quiet
        | some fd => .place fd (answers.malloc && answers.add)
      else
        match answers.recv with
        | .data chunk => .data eventFd chunk
        | .eof | .again | .error => .ended eventFd
  | .wait _ | .signal => .quiet

/-- Data leaves its connection open and is added to the counters of the first or
second connection, and a client connection is closed only after recv returned 0
or an error for it. -/
def Delivered (s : State) (i : Input) : Prop :=
  (∀ fd chunk, action s i = .data fd chunk →
    fd ∈ (step s i).kernel.sockets ∧
    (s.kernel.conn fd = 1 →
      (step s i).counters.conn1Bytes = s.counters.conn1Bytes + UInt64.ofNat chunk.length ∧
      (step s i).counters.totalDataBytes =
        s.counters.totalDataBytes + UInt64.ofNat chunk.length) ∧
    (s.kernel.conn fd = 2 →
      (step s i).counters.conn2Bytes = s.counters.conn2Bytes + UInt64.ofNat chunk.length ∧
      (step s i).counters.totalDataBytes =
        s.counters.totalDataBytes + UInt64.ofNat chunk.length)) ∧
  ∀ fd, (fd ∈ s.kernel.sockets ∨ ∃ setUp, action s i = .place fd setUp) →
    fd ∉ (step s i).kernel.sockets → action s i = .ended fd

/-- Accepted connections are set up, and data arrives while count is 2 and, on the
second connection, on a descriptor that was not the first one's. -/
def InPhase (s : State) (i : Input) : Prop :=
  match action s i with
  | .place _ setUp => setUp = true
  | .data fd _ => s.count = 2 ∧ (s.kernel.conn fd = 2 → fd ≠ s.firstSocket)
  | .quiet | .ended _ => True

/-- first_socket and second_socket are the descriptors that the first two
connections were given. -/
structure Named (s : State) : Prop where
  bounded : ∀ fd, s.kernel.conn fd ≤ s.kernel.accepted
  first : s.firstSocket = -1 ↔ s.kernel.accepted = 0
  second : s.secondSocket = -1 ↔ s.kernel.accepted ≤ 1
  one : ∀ fd, s.kernel.conn fd = 1 → fd = s.firstSocket
  two : ∀ fd, s.kernel.conn fd = 2 → fd = s.secondSocket

/-! ## What the parts of a step do -/

theorem note_shape (s : State) (fd : Fd) (clock : Fin 5 → Timeval) :
    ∃ clocks one two, noteSocket2 (noteSocket1 s fd clock) fd clock =
      { s with
        clocks := clocks
        counters := { s.counters with socket1totalCount := one, socket2totalCount := two } } := by
  rw [noteSocket2, noteSocket1]
  split_ifs <;> exact ⟨_, _, _, rfl⟩

theorem pairSocket1_shape (s : State) : ∃ pick one both, pairSocket1 s =
    { s with
      pick := pick
      counters := { s.counters with socket2BeforeSocket1 := one, both := both } } := by
  rw [pairSocket1]
  split_ifs <;> exact ⟨_, _, _, rfl⟩

theorem pairSocket2_shape (s : State) : ∃ pick one both, pairSocket2 s =
    { s with
      pick := pick
      counters := { s.counters with socket1BeforeSocket2 := one, both := both } } := by
  rw [pairSocket2]
  split_ifs <;> exact ⟨_, _, _, rfl⟩

def SameNames (s s' : State) : Prop :=
  s'.firstSocket = s.firstSocket ∧ s'.secondSocket = s.secondSocket

theorem countData_effect (s : State) (fd : Fd) (received : Nat) (clock : Fin 5 → Timeval) :
    let s' := countData s fd received clock
    SameNames s s' ∧ s'.kernel = s.kernel ∧
    s'.counters.totalDataBytes = s.counters.totalDataBytes + UInt64.ofNat received ∧
    s'.counters.conn1Bytes =
      s.counters.conn1Bytes + (if fd = s.firstSocket then UInt64.ofNat received else 0) ∧
    s'.counters.conn2Bytes = s.counters.conn2Bytes + (if fd = s.firstSocket then 0
      else if fd = s.secondSocket then UInt64.ofNat received else 0) := by
  have hone := pairSocket1_shape (tallyConn1 { s with counters := { s.counters with
    totalDataBytes := s.counters.totalDataBytes + UInt64.ofNat received } } received clock)
  have htwo := pairSocket2_shape (tallyConn2 { s with counters := { s.counters with
    totalDataBytes := s.counters.totalDataBytes + UInt64.ofNat received } } received clock)
  rw [countData]
  split
  · obtain ⟨_, _, _, hshape⟩ := hone
    rw [hshape]
    exact ⟨⟨rfl, rfl⟩, rfl, rfl, rfl, (add_zero _).symm⟩
  · split
    · obtain ⟨_, _, _, hshape⟩ := htwo
      rw [hshape]
      exact ⟨⟨rfl, rfl⟩, rfl, rfl, (add_zero _).symm, rfl⟩
    · exact ⟨⟨rfl, rfl⟩, rfl, rfl, (add_zero _).symm, (add_zero _).symm⟩

def After (s s' : State) : Action → Prop
  | .quiet => s'.kernel = s.kernel ∧ SameNames s s'
  | .ended fd => s'.kernel = s.kernel.close fd ∧ SameNames s s'
  | .place fd setUp =>
    s'.kernel.conn = (s.kernel.accept fd).conn ∧
    s'.kernel.accepted = s.kernel.accepted + 1 ∧
    s'.kernel.sockets = (if setUp then insert fd s.kernel.sockets
      else (insert fd s.kernel.sockets).erase fd) ∧
    (setUp = true →
      s'.firstSocket = (if s.firstSocket = -1 then fd else s.firstSocket) ∧
      s'.secondSocket =
        (if s.firstSocket ≠ -1 ∧ s.secondSocket = -1 then fd else s.secondSocket))
  | .data fd chunk =>
    SameNames s s' ∧
    if s.count = 2 then
      s'.kernel = s.kernel ∧
      s'.counters.totalDataBytes = s.counters.totalDataBytes + UInt64.ofNat chunk.length ∧
      s'.counters.conn1Bytes = s.counters.conn1Bytes +
        (if fd = s.firstSocket then UInt64.ofNat chunk.length else 0) ∧
      s'.counters.conn2Bytes = s.counters.conn2Bytes + (if fd = s.firstSocket then 0
        else if fd = s.secondSocket then UInt64.ofNat chunk.length else 0)
    else s'.kernel = s.kernel.close fd

theorem nameSocket_shape (s : State) (fd : Fd) : nameSocket s fd =
    { s with
      firstSocket := if s.firstSocket = -1 then fd else s.firstSocket
      secondSocket :=
        if s.firstSocket ≠ -1 ∧ s.secondSocket = -1 then fd else s.secondSocket } := by
  rw [nameSocket]
  split
  · rename_i hfirst
    rw [if_neg (fun h => h.1 hfirst)]
  · rename_i hfirst
    split
    · rename_i hsecond
      rw [if_pos ⟨hfirst, hsecond⟩]
    · rename_i hsecond
      rw [if_neg (fun h => hsecond h.2)]

theorem after_acceptClient (s : State) {answers : Answers} {fd : Fd}
    (hacc : answers.accept = some fd) :
    After s (acceptClient s answers) (.place fd (answers.malloc && answers.add)) := by
  rw [acceptClient, hacc]
  dsimp only
  cases answers.malloc with
  | false => exact ⟨rfl, rfl, rfl, nofun⟩
  | true =>
    rw [if_pos rfl, Bool.true_and, registerClient, nameSocket_shape]
    cases answers.add with
    | false => exact ⟨rfl, rfl, rfl, nofun⟩
    | true => exact ⟨rfl, rfl, rfl, fun _ => ⟨rfl, rfl⟩⟩

theorem after_data (s : State) (fd : Fd) {answers : Answers} {chunk : Chunk bufferSize}
    (hrecv : answers.recv = .data chunk) :
    After s (clientEvent s fd answers) (.data fd chunk) := by
  obtain ⟨clocks, one, two, hnote⟩ := note_shape s fd answers.clock
  rw [clientEvent, hrecv]
  dsimp only
  rw [hnote]
  cases eq_or_ne s.count 2 with
  | inl htwo =>
    rw [if_pos htwo]
    obtain ⟨hnames, hcounted⟩ := countData_effect { s with
      clocks := clocks
      counters := { s.counters with socket1totalCount := one, socket2totalCount := two } }
      fd chunk.length answers.clock
    refine ⟨hnames, ?_⟩
    rw [if_pos htwo]
    exact hcounted
  | inr hother =>
    rw [if_neg hother]
    refine ⟨⟨rfl, rfl⟩, ?_⟩
    rw [if_neg hother]
    rfl

theorem step_after (s : State) (i : Input) : After s (step s i) (action s i) := by
  cases i with
  | wait batch | signal => exact ⟨rfl, rfl, rfl⟩
  | event answers =>
    simp only [step, action]
    cases hpend : s.pending with
    | nil => exact ⟨rfl, rfl, rfl⟩
    | cons eventFd rest =>
      simp only [handleEvent]
      split
      · cases hacc : answers.accept with
        | none =>
          rw [acceptClient, hacc]
          exact ⟨rfl, rfl, rfl⟩
        | some fd => exact after_acceptClient { s with pending := rest } hacc
      · cases hrecv : answers.recv with
        | data chunk => exact after_data { s with pending := rest } eventFd hrecv
        | eof | again | error =>
          rw [clientEvent, hrecv]
          exact ⟨rfl, rfl, rfl⟩

/-! ## What a permitted input promises -/

/-- What brought an action about. -/
def Caused (s : State) (i : Input) : Action → Prop
  | .quiet => True
  | .place fd _ => ∃ answers rest, i = .event answers ∧ s.pending = s.serverFd :: rest ∧
      answers.accept = some fd
  | .data fd chunk => ∃ answers rest, i = .event answers ∧ s.pending = fd :: rest ∧
      fd ≠ s.serverFd ∧ answers.recv = .data chunk
  | .ended fd => ∃ rest, s.pending = fd :: rest

theorem action_caused (s : State) (i : Input) : Caused s i (action s i) := by
  cases i with
  | wait | signal => trivial
  | event answers =>
    rw [action]
    cases hpend : s.pending with
    | nil => trivial
    | cons eventFd rest =>
      dsimp only
      split_ifs with hserver
      · cases haccept : answers.accept with
        | none => trivial
        | some fd => exact ⟨answers, rest, rfl, hserver ▸ hpend, haccept⟩
      · cases hrecv : answers.recv with
        | data chunk => exact ⟨answers, rest, rfl, hpend, hserver, hrecv⟩
        | eof | again | error => exact ⟨rest, hpend⟩

theorem permitted_place {s : State} {i : Input} {fd : Fd} {setUp : Bool} (hp : Permitted s i)
    (ha : action s i = .place fd setUp) : 0 ≤ fd := by
  have hcaused := action_caused s i
  rw [ha] at hcaused
  obtain ⟨answers, rest, rfl, hpend, haccept⟩ := hcaused
  simp only [Permitted, hpend, if_true] at hp
  exact (hp fd haccept).1

theorem permitted_data {s : State} {i : Input} {fd : Fd} {chunk : Chunk bufferSize}
    (hp : Permitted s i) (ha : action s i = .data fd chunk) : fd ∈ s.kernel.sockets := by
  have hcaused := action_caused s i
  rw [ha] at hcaused
  obtain ⟨answers, rest, rfl, hpend, hclient, hrecv⟩ := hcaused
  simp only [Permitted, hpend, if_neg hclient, hrecv] at hp
  by_contra hclosed
  cases hp hclosed

/-! ## One step -/

theorem named_start {s : State} (h : Initial s) : Named s := by
  obtain ⟨_, _, rfl⟩ := h
  exact ⟨fun _ => Nat.le_refl 0, iff_of_true rfl rfl, iff_of_true rfl (Nat.zero_le 1), nofun, nofun⟩

theorem Named.of_same {s s' : State} (h : Named s) (hconn : s'.kernel.conn = s.kernel.conn)
    (haccepted : s'.kernel.accepted = s.kernel.accepted) (hnames : SameNames s s') : Named s' := by
  obtain ⟨hfirst, hsecond⟩ := hnames
  constructor
  · rw [hconn, haccepted]
    exact h.bounded
  · rw [hfirst, haccepted]
    exact h.first
  · rw [hsecond, haccepted]
    exact h.second
  · rw [hconn, hfirst]
    exact h.one
  · rw [hconn, hsecond]
    exact h.two

theorem Named.place {s s' : State} {fd : Fd} (h : Named s) (hfd : 0 ≤ fd)
    (hafter : After s s' (.place fd true)) : Named s' := by
  have hne : fd ≠ -1 := by
    rintro rfl
    exact absurd hfd (by decide)
  obtain ⟨hconn, haccepted, _, hnames⟩ := hafter
  obtain ⟨hfirst, hsecond⟩ := hnames rfl
  have hself : s'.kernel.conn fd = s.kernel.accepted + 1 := by
    rw [hconn, Kernel.conn_accept_self]
  have hother : ∀ other, other ≠ fd → s'.kernel.conn other = s.kernel.conn other := by
    intro other hdiff
    rw [hconn, Kernel.conn_accept_of_ne _ hdiff]
  have hone := h.first
  have htwo := h.second
  constructor
  · intro other
    rw [haccepted]
    rcases eq_or_ne other fd with rfl | hdiff
    · exact Nat.le_of_eq hself
    · rw [hother other hdiff]
      exact Nat.le_succ_of_le (h.bounded other)
  · rw [hfirst, haccepted]
    refine iff_of_false ?_ (Nat.succ_ne_zero _)
    split
    · exact hne
    · rename_i hbusy
      exact hbusy
  · rw [hsecond, haccepted]
    split_ifs with hnone
    · refine iff_of_false hne ?_
      have hpos := mt hone.mpr hnone.1
      omega
    · constructor
      · intro hfree
        have hzero := hone.mp (not_not.mp fun hbusy => hnone ⟨hbusy, hfree⟩)
        omega
      · intro hle
        exact htwo.mpr (by omega)
  · intro other hnumber
    rw [hfirst]
    rcases eq_or_ne other fd with rfl | hdiff
    · rw [hself] at hnumber
      rw [if_pos (hone.mpr (by omega))]
    · rw [hother other hdiff] at hnumber
      have hle := h.bounded other
      rw [if_neg (mt hone.mp (by omega))]
      exact h.one other hnumber
  · intro other hnumber
    rw [hsecond]
    rcases eq_or_ne other fd with rfl | hdiff
    · rw [hself] at hnumber
      rw [if_pos ⟨mt hone.mp (by omega), htwo.mpr (by omega)⟩]
    · rw [hother other hdiff] at hnumber
      have hle := h.bounded other
      rw [if_neg (fun hnone => absurd (htwo.mp hnone.2) (by omega))]
      exact h.two other hnumber

theorem named_step {s : State} {i : Input} (hp : Permitted s i) (hphase : InPhase s i)
    (h : Named s) : Named (step s i) := by
  have hafter := step_after s i
  rw [InPhase] at hphase
  cases ha : action s i with
  | quiet =>
    rw [ha] at hafter
    exact h.of_same (by rw [hafter.1]) (by rw [hafter.1]) hafter.2
  | ended fd =>
    rw [ha] at hafter
    exact h.of_same (by rw [hafter.1, Kernel.conn_close]) (by rw [hafter.1, Kernel.accepted_close])
      hafter.2
  | place fd setUp =>
    have hfd := permitted_place hp ha
    rw [ha] at hafter hphase
    dsimp only at hphase
    subst hphase
    exact h.place hfd hafter
  | data fd chunk =>
    rw [ha] at hafter hphase
    obtain ⟨hnames, hcount⟩ := hafter
    rw [if_pos hphase.1] at hcount
    exact h.of_same (by rw [hcount.1]) (by rw [hcount.1]) hnames

theorem delivered_data_iff {s : State} {i : Input} {fd : Fd} {chunk : Chunk bufferSize}
    (ha : action s i = .data fd chunk) (hopen : fd ∈ s.kernel.sockets) (h : Named s) :
    Delivered s i ↔ s.count = 2 ∧ (s.kernel.conn fd = 2 → fd ≠ s.firstSocket) := by
  have hafter := step_after s i
  rw [ha] at hafter
  obtain ⟨_, hcount⟩ := hafter
  have hlength := chunk.ofNat_length_ne_zero (by decide)
  constructor
  · rintro ⟨hdata, _⟩
    obtain ⟨hstays, _, htwo⟩ := hdata fd chunk ha
    -- At any other count the descriptor is closed.
    have hphase : s.count = 2 := by
      refine Decidable.byContradiction fun hother => ?_
      rw [if_neg hother] at hcount
      rw [hcount] at hstays
      exact Finset.notMem_erase fd _ hstays
    refine ⟨hphase, fun hnumber hfirst => ?_⟩
    -- On the first descriptor nothing is added to conn2_bytes.
    rw [if_pos hphase, if_pos hfirst] at hcount
    have hsame := (htwo hnumber).1.symm.trans hcount.2.2.2
    rw [if_pos hfirst, add_zero] at hsame
    exact hlength (by simpa using hsame)
  · rintro ⟨hphase, hsecond⟩
    rw [if_pos hphase] at hcount
    obtain ⟨hkernel, htotal, hconn1, hconn2⟩ := hcount
    refine ⟨fun fd' chunk' ha' => ?_, fun other hwas hclosed => ?_⟩
    · rw [ha] at ha'
      cases ha'
      refine ⟨hkernel ▸ hopen, fun hone => ⟨?_, htotal⟩, fun htwo => ⟨?_, htotal⟩⟩
      · rw [hconn1, if_pos (h.one fd hone)]
      · rw [hconn2, if_neg (hsecond htwo), if_pos (h.two fd htwo)]
    · rw [hkernel] at hclosed
      rcases hwas with hold | ⟨setUp, hplace⟩
      · exact absurd hold hclosed
      · rw [ha] at hplace
        cases hplace

theorem delivered_iff {s : State} {i : Input} (hp : Permitted s i) (h : Named s) :
    Delivered s i ↔ InPhase s i := by
  have hafter := step_after s i
  rw [InPhase]
  cases ha : action s i with
  | quiet =>
    rw [ha] at hafter
    refine iff_of_true ⟨fun _ _ habsurd => ?_, fun fd hwas hclosed => ?_⟩ trivial
    · rw [ha] at habsurd
      cases habsurd
    · rw [hafter.1] at hclosed
      rcases hwas with hold | ⟨setUp, hplace⟩
      · exact absurd hold hclosed
      · rw [ha] at hplace
        cases hplace
  | ended fd =>
    rw [ha] at hafter
    refine iff_of_true ⟨fun _ _ habsurd => ?_, fun other hwas hclosed => ?_⟩ trivial
    · rw [ha] at habsurd
      cases habsurd
    · rw [hafter.1, Kernel.sockets_close, Finset.mem_erase] at hclosed
      rcases hwas with hold | ⟨setUp, hplace⟩
      · have hsame : other = fd := not_not.mp fun hdiff => hclosed ⟨hdiff, hold⟩
        rw [ha, hsame]
      · rw [ha] at hplace
        cases hplace
  | place fd setUp =>
    rw [ha] at hafter
    obtain ⟨_, _, hsockets, _⟩ := hafter
    constructor
    · rintro ⟨_, hclose⟩
      refine Decidable.byContradiction fun hfailed => ?_
      rw [if_neg hfailed] at hsockets
      have hclosed : fd ∉ (step s i).kernel.sockets := hsockets ▸ Finset.notMem_erase fd _
      have habsurd := hclose fd (.inr ⟨setUp, ha⟩) hclosed
      rw [ha] at habsurd
      cases habsurd
    · intro hset
      rw [if_pos hset] at hsockets
      refine ⟨fun _ _ habsurd => ?_, fun other hwas hclosed => ?_⟩
      · rw [ha] at habsurd
        cases habsurd
      · rw [hsockets] at hclosed
        rcases hwas with hold | ⟨setUp', hplace⟩
        · exact absurd (Finset.mem_insert_of_mem hold) hclosed
        · rw [ha] at hplace
          cases hplace
          exact absurd (Finset.mem_insert_self _ _) hclosed
  | data fd chunk => exact delivered_data_iff ha (permitted_data hp ha) h

/-- No data is discarded and no connection is cut off exactly when every accepted
connection is set up and all data arrives while count is 2, on the second
connection on a descriptor of its own. -/
theorem delivered_iff_inPhase (x : Run) : x.EachStep Delivered ↔ x.EachStep InPhase :=
  x.eachStep_congr (fun _ hs => named_start hs) (fun _ _ hp hphase h => named_step hp hphase h)
    fun _ _ hp h => delivered_iff hp h

def chunkOne : Chunk bufferSize := ⟨[49], by decide, by decide⟩

/-- The first client sends before the second one has connected. -/
def earlyData : List Input :=
  [.wait (some [3]), .event ⟨some 4, true, true, .again, fun _ => ⟨0, 0⟩⟩, .wait (some [4]),
    .event ⟨none, true, true, .data ⟨[49], by decide, by decide⟩, fun _ => ⟨0, 0⟩⟩]

theorem permitted_earlyData : Along step Permitted (start 3) earlyData := by decide

def earlyDataRun : Run := ⟨start 3, earlyData, ⟨3, by decide, rfl⟩, permitted_earlyData⟩

theorem discarded_earlyData : earlyDataRun.final.kernel.conn 4 = 1 ∧
    earlyDataRun.final.counters.conn1Bytes = 0 ∧ earlyDataRun.final.counters.totalDataBytes = 0 ∧
    earlyDataRun.final.kernel.sockets = ∅ ∧ ¬earlyDataRun.EachStep Delivered := by
  have hclosed : earlyDataRun.final.kernel.sockets = ∅ := by decide
  refine ⟨by decide, by with_unfolding_all decide, by with_unfolding_all decide, hclosed, ?_⟩
  intro h
  have hlast := earlyDataRun.eachStep_iff.mp h 3 (by decide)
  have hstays := (hlast.1 4 ⟨[49], by decide, by decide⟩ rfl).1
  have hfinal : step (earlyDataRun.stateAt 3) earlyDataRun.inputs[3] = earlyDataRun.final := rfl
  rw [hfinal, hclosed] at hstays
  exact Finset.notMem_empty 4 hstays

end ConnectionOrder.ServerExp2
