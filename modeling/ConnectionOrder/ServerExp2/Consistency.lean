import ConnectionOrder.ServerExp2.Clients

/-!
# The report of serverexp2 is consistent

A pair is counted for two events, one on each socket, and each of the two has gone
into the total of its socket before; the one that came first is still held in pick
until the pair is complete. While count is 2 every open client is the first or the
second socket, so that no byte goes into total_data_bytes alone.
-/

namespace ConnectionOrder.ServerExp2

open Machine

/-- The two counts as print_order_ratio prints them. -/
def firstSocketCount (c : Counters) : Int :=
  c.socket1totalCount - (c.socket1BeforeSocket2 + c.socket2BeforeSocket1)

def secondSocketCount (c : Counters) : Int :=
  c.socket2totalCount - (c.socket1BeforeSocket2 + c.socket2BeforeSocket1)

structure Consistent (c : Counters) : Prop where
  both : c.both = c.socket1BeforeSocket2 + c.socket2BeforeSocket1
  one : c.both ≤ c.socket1totalCount
  two : c.both ≤ c.socket2totalCount
  firstCount : 0 ≤ firstSocketCount c
  secondCount : 0 ≤ secondSocketCount c
  bytes : c.conn1Bytes + c.conn2Bytes = c.totalDataBytes

/-! ## Pairs and totals -/

def unit (p : Prop) [Decidable p] : Int := if p then 1 else 0

theorem unit_pos {p : Prop} [Decidable p] (h : p) : unit p = 1 := if_pos h

theorem unit_neg {p : Prop} [Decidable p] (h : ¬p) : unit p = 0 := if_neg h

theorem unit_nonneg (p : Prop) [Decidable p] : 0 ≤ unit p := by
  rw [unit]
  split <;> decide

/-- The totals cover the pairs counted, the event that pick holds, and `one` and `two`
events besides. -/
structure Covers (one two pick : Int) (c : Counters) : Prop where
  both : c.both = c.socket1BeforeSocket2 + c.socket2BeforeSocket1
  one : c.both + unit (pick = 1) + one ≤ c.socket1totalCount
  two : c.both + unit (pick = 2) + two ≤ c.socket2totalCount

theorem Covers.mono {one two one' two' pick : Int} {c : Counters} (h : Covers one two pick c)
    (hone : one' ≤ one) (htwo : two' ≤ two) : Covers one' two' pick c := by
  obtain ⟨hboth, hcovered1, hcovered2⟩ := h
  exact ⟨hboth, by omega, by omega⟩

/-- Each socket that the event is for has its total raised. -/
theorem note_totals (s : State) (fd : Fd) (clock : Fin 5 → Timeval) :
    ∃ clocks, noteSocket2 (noteSocket1 s fd clock) fd clock =
      { s with
        clocks := clocks
        counters := { s.counters with
          socket1totalCount := s.counters.socket1totalCount + unit (fd = s.firstSocket)
          socket2totalCount := s.counters.socket2totalCount + unit (fd = s.secondSocket) } } := by
  rw [noteSocket2, noteSocket1]
  cases Decidable.em (fd = s.firstSocket) with
  | inl hfirst =>
    rw [if_pos hfirst, unit_pos hfirst]
    cases Decidable.em (fd = s.secondSocket) with
    | inl hsecond =>
      rw [if_pos hsecond, unit_pos hsecond]
      exact ⟨_, rfl⟩
    | inr hsecond =>
      rw [if_neg hsecond, unit_neg hsecond, add_zero]
      exact ⟨_, rfl⟩
  | inr hfirst =>
    rw [if_neg hfirst, unit_neg hfirst, add_zero]
    cases Decidable.em (fd = s.secondSocket) with
    | inl hsecond =>
      rw [if_pos hsecond, unit_pos hsecond]
      exact ⟨_, rfl⟩
    | inr hsecond =>
      rw [if_neg hsecond, unit_neg hsecond, add_zero]
      exact ⟨_, rfl⟩

theorem Covers.note {pick : Int} {c : Counters} (h : Covers 0 0 pick c) (one two : Int) :
    Covers one two pick { c with
      socket1totalCount := c.socket1totalCount + one
      socket2totalCount := c.socket2totalCount + two } := by
  obtain ⟨hboth, hcovered1, hcovered2⟩ := h
  refine ⟨hboth, ?_, ?_⟩ <;> dsimp only <;> omega

theorem Covers.pairSocket1 {s : State} (h : Covers 1 0 s.pick s.counters) :
    Covers 0 0 (pairSocket1 s).pick (pairSocket1 s).counters := by
  obtain ⟨hboth, hone, htwo⟩ := h
  have hheld1 := unit_nonneg (s.pick = 1)
  have hheld2 := unit_nonneg (s.pick = 2)
  rw [ServerExp2.pairSocket1]
  split
  · have h1 : unit ((1 : Int) = 1) = 1 := rfl
    have h2 : unit ((1 : Int) = 2) = 0 := rfl
    refine ⟨hboth, ?_, ?_⟩ <;> dsimp only <;> omega
  · split
    · rename_i htake
      have h1 : unit ((-1 : Int) = 1) = 0 := rfl
      have h2 : unit ((-1 : Int) = 2) = 0 := rfl
      rw [unit_pos htake] at htwo
      refine ⟨?_, ?_, ?_⟩ <;> dsimp only <;> omega
    · exact ⟨hboth, by omega, htwo⟩

theorem Covers.pairSocket2 {s : State} (h : Covers 0 1 s.pick s.counters) :
    Covers 0 0 (pairSocket2 s).pick (pairSocket2 s).counters := by
  obtain ⟨hboth, hone, htwo⟩ := h
  have hheld1 := unit_nonneg (s.pick = 1)
  have hheld2 := unit_nonneg (s.pick = 2)
  rw [ServerExp2.pairSocket2]
  split
  · have h1 : unit ((2 : Int) = 1) = 0 := rfl
    have h2 : unit ((2 : Int) = 2) = 1 := rfl
    refine ⟨hboth, ?_, ?_⟩ <;> dsimp only <;> omega
  · split
    · rename_i htake
      have h1 : unit ((-1 : Int) = 1) = 0 := rfl
      have h2 : unit ((-1 : Int) = 2) = 0 := rfl
      rw [unit_pos htake] at hone
      refine ⟨?_, ?_, ?_⟩ <;> dsimp only <;> omega
    · exact ⟨hboth, hone, by omega⟩

/-! ## One event -/

structure Accounted (s : State) : Prop where
  covers : Covers 0 0 s.pick s.counters
  bytes : s.counters.conn1Bytes + s.counters.conn2Bytes = s.counters.totalDataBytes

theorem Accounted.consistent {s : State} (h : Accounted s) : Consistent s.counters := by
  obtain ⟨⟨hboth, hone, htwo⟩, hbytes⟩ := h
  have hheld1 := unit_nonneg (s.pick = 1)
  have hheld2 := unit_nonneg (s.pick = 2)
  refine ⟨hboth, by omega, by omega, ?_, ?_, hbytes⟩
  · rw [firstSocketCount]
    omega
  · rw [secondSocketCount]
    omega

theorem Accounted.same {s s' : State} (h : Accounted s) (hpick : s'.pick = s.pick)
    (hcounters : s'.counters = s.counters) : Accounted s' := by
  obtain ⟨hcovers, hbytes⟩ := h
  constructor
  · rw [hpick, hcounters]
    exact hcovers
  · rw [hcounters]
    exact hbytes

theorem pairSocket1_bytes (s : State) :
    (pairSocket1 s).counters.conn1Bytes = s.counters.conn1Bytes ∧
    (pairSocket1 s).counters.conn2Bytes = s.counters.conn2Bytes ∧
    (pairSocket1 s).counters.totalDataBytes = s.counters.totalDataBytes := by
  obtain ⟨_, _, _, hshape⟩ := pairSocket1_shape s
  rw [hshape]
  exact ⟨rfl, rfl, rfl⟩

theorem pairSocket2_bytes (s : State) :
    (pairSocket2 s).counters.conn1Bytes = s.counters.conn1Bytes ∧
    (pairSocket2 s).counters.conn2Bytes = s.counters.conn2Bytes ∧
    (pairSocket2 s).counters.totalDataBytes = s.counters.totalDataBytes := by
  obtain ⟨_, _, _, hshape⟩ := pairSocket2_shape s
  rw [hshape]
  exact ⟨rfl, rfl, rfl⟩

/-- Data of one of the two sockets that its total has been raised for. -/
theorem accounted_countData {s : State} {fd : Fd} {received : Nat} {clock : Fin 5 → Timeval}
    (hcovers : Covers (unit (fd = s.firstSocket)) (unit (fd = s.secondSocket)) s.pick s.counters)
    (hbytes : s.counters.conn1Bytes + s.counters.conn2Bytes = s.counters.totalDataBytes)
    (hnamed : fd = s.firstSocket ∨ fd = s.secondSocket) :
    Accounted (countData s fd received clock) := by
  have hheld1 := unit_nonneg (fd = s.firstSocket)
  have hheld2 := unit_nonneg (fd = s.secondSocket)
  rw [countData]
  dsimp only
  split
  · rename_i hfirst
    rw [unit_pos hfirst] at hcovers
    have hone := hcovers.mono (Int.le_refl 1) hheld2
    constructor
    · exact Covers.pairSocket1 ⟨hone.both, hone.one, hone.two⟩
    · obtain ⟨h1, h2, htotal⟩ := pairSocket1_bytes (tallyConn1
        { s with counters := { s.counters with
            totalDataBytes := s.counters.totalDataBytes + UInt64.ofNat received } }
        received clock)
      rw [h1, h2, htotal, tallyConn1]
      dsimp only
      rw [← hbytes, add_right_comm]
  · rename_i hfirst
    have hsecond := hnamed.resolve_left hfirst
    rw [if_pos hsecond]
    rw [unit_pos hsecond] at hcovers
    have htwo := hcovers.mono hheld1 (Int.le_refl 1)
    constructor
    · exact Covers.pairSocket2 ⟨htwo.both, htwo.one, htwo.two⟩
    · obtain ⟨h1, h2, htotal⟩ := pairSocket2_bytes (tallyConn2
        { s with counters := { s.counters with
            totalDataBytes := s.counters.totalDataBytes + UInt64.ofNat received } }
        received clock)
      rw [h1, h2, htotal, tallyConn2]
      dsimp only
      rw [← hbytes, add_assoc]

theorem accounted_clientEvent {s : State} {fd : Fd} (answers : Answers)
    (hnamed : s.count = 2 → ∀ chunk, answers.recv = .data chunk →
      fd = s.firstSocket ∨ fd = s.secondSocket) (h : Accounted s) :
    Accounted (clientEvent s fd answers) := by
  rw [clientEvent]
  cases hrecv : answers.recv with
  | eof | again | error => exact h.same rfl rfl
  | data chunk =>
    obtain ⟨clocks, hnote⟩ := note_totals s fd answers.clock
    have hcovers := h.covers.note (unit (fd = s.firstSocket)) (unit (fd = s.secondSocket))
    dsimp only
    rw [hnote]
    split
    · rename_i hcount
      exact accounted_countData hcovers h.bytes (hnamed hcount chunk hrecv)
    · have hdrop := hcovers.mono (unit_nonneg _) (unit_nonneg _)
      exact ⟨hdrop, h.bytes⟩

theorem acceptClient_counting (s : State) (answers : Answers) :
    (acceptClient s answers).pick = s.pick ∧
    (acceptClient s answers).counters = s.counters := by
  rw [acceptClient]
  cases answers.accept with
  | none => exact ⟨rfl, rfl⟩
  | some fd =>
    dsimp only
    rw [nameSocket_shape, registerClient]
    split_ifs <;> exact ⟨rfl, rfl⟩

/-! ## Who is connected -/

/-- No more connections are open than names have been given out, as long as count allows
data to be counted. -/
structure Recognized (s : State) : Prop where
  counted : 0 ≤ s.count
  valid : ∀ fd ∈ s.kernel.sockets, 0 ≤ fd
  fresh : s.count ≤ 0 → s.firstSocket = -1
  single : s.count ≤ 1 → s.secondSocket = -1
  known : s.count ≤ 2 → ∀ fd ∈ s.kernel.sockets, fd = s.firstSocket ∨ fd = s.secondSocket

theorem Recognized.shrink {s s' : State} (h : Recognized s) (hnames : SameNames s s')
    (hcount : s.count ≤ s'.count) (hsub : s'.kernel.sockets ⊆ s.kernel.sockets) :
    Recognized s' := by
  obtain ⟨hfirst, hsecond⟩ := hnames
  constructor
  · exact h.counted.trans hcount
  · intro fd hfd
    exact h.valid fd (hsub hfd)
  · intro hle
    rw [hfirst]
    exact h.fresh (hcount.trans hle)
  · intro hle
    rw [hsecond]
    exact h.single (hcount.trans hle)
  · intro hle fd hfd
    rw [hfirst, hsecond]
    exact h.known (hcount.trans hle) fd (hsub hfd)

/-- A connection that is given a name where one is free. -/
theorem Recognized.name {s s' : State} {fd : Fd} (h : Recognized s) (hfd : 0 ≤ fd)
    (hcount : s'.count = s.count + 1)
    (hfirst : s'.firstSocket = if s.firstSocket = -1 then fd else s.firstSocket)
    (hsecond : s'.secondSocket =
      if s.firstSocket ≠ -1 ∧ s.secondSocket = -1 then fd else s.secondSocket)
    (hsub : s'.kernel.sockets ⊆ insert fd s.kernel.sockets) : Recognized s' := by
  have hcounted := h.counted
  constructor
  · omega
  · intro other hother
    rcases Finset.mem_insert.mp (hsub hother) with rfl | hold
    · exact hfd
    · exact h.valid other hold
  · intro hle
    omega
  · intro hle
    have hfree : s.firstSocket = -1 := h.fresh (by omega)
    rw [hsecond, if_neg (fun hboth => hboth.1 hfree)]
    exact h.single (by omega)
  · intro hle other hother
    have hfree : s.secondSocket = -1 := h.single (by omega)
    rcases Finset.mem_insert.mp (hsub hother) with rfl | hold
    · cases Decidable.em (s.firstSocket = -1) with
      | inl hnone =>
        rw [hfirst, if_pos hnone]
        exact .inl rfl
      | inr hsome =>
        rw [hsecond, if_pos ⟨hsome, hfree⟩]
        exact .inr rfl
    · -- A name that is still free is -1, which no descriptor is.
      have hvalid : other ≠ -1 := by
        rintro rfl
        exact absurd (h.valid _ hold) (by decide)
      have hsame : other = s.firstSocket :=
        (h.known (by omega) other hold).resolve_right fun heq => hvalid (heq.trans hfree)
      rw [hfirst, if_neg (hsame ▸ hvalid)]
      exact .inl hsame

theorem recognized_acceptClient {s : State} {answers : Answers}
    (hfd : ∀ fd ∈ answers.accept, 0 ≤ fd) (h : Recognized s) :
    Recognized (acceptClient s answers) := by
  rw [acceptClient]
  cases haccept : answers.accept with
  | none => exact h.shrink ⟨rfl, rfl⟩ (Int.le_add_one (Int.le_refl _)) (Finset.Subset.refl _)
  | some fd =>
    have hvalid : 0 ≤ fd := hfd fd haccept
    dsimp only
    split
    · rw [nameSocket_shape, registerClient]
      split
      · exact h.name hvalid rfl rfl rfl (Finset.Subset.refl _)
      · exact h.name hvalid rfl rfl rfl (Finset.erase_subset _ _)
    · refine h.shrink ⟨rfl, rfl⟩ (Int.le_add_one (Int.le_refl _)) ?_
      exact Finset.erase_insert_subset fd s.kernel.sockets

theorem recognized_clientEvent {s : State} (fd : Fd) (answers : Answers) (h : Recognized s) :
    Recognized (clientEvent s fd answers) := by
  have hclose : ∀ s' : State, SameNames s s' → s'.count = s.count →
      s'.kernel = s.kernel.close fd → Recognized s' := by
    intro s' hnames hcount hkernel
    refine h.shrink hnames (Int.le_of_eq hcount.symm) ?_
    rw [hkernel]
    exact Finset.erase_subset fd s.kernel.sockets
  cases hrecv : answers.recv with
  | eof | again | error =>
    rw [clientEvent, hrecv]
    exact hclose _ ⟨rfl, rfl⟩ rfl rfl
  | data chunk =>
    cases Decidable.em (s.count = 2) with
    | inl hcount =>
      obtain ⟨_, _, _, hshape⟩ := clientEvent_data_shape s fd hrecv hcount
      rw [hshape]
      exact h.shrink ⟨rfl, rfl⟩ (Int.le_refl _) (Finset.Subset.refl _)
    | inr hcount =>
      obtain ⟨_, _, hshape⟩ := clientEvent_discard_shape s fd hrecv hcount
      rw [hshape]
      exact hclose _ ⟨rfl, rfl⟩ rfl rfl

/-! ## Every run -/

theorem accounted_step {s : State} {i : Input} (hp : Permitted s i)
    (h : Recognized s ∧ Accounted s) : Recognized (step s i) ∧ Accounted (step s i) := by
  obtain ⟨hknown, haccounted⟩ := h
  cases i with
  | wait batch | signal => exact ⟨hknown.shrink ⟨rfl, rfl⟩ (Int.le_refl _) (Finset.Subset.refl _),
      haccounted.same rfl rfl⟩
  | event answers =>
    rw [step]
    rw [Permitted] at hp
    cases hpend : s.pending with
    | nil => exact ⟨hknown, haccounted⟩
    | cons eventFd rest =>
      rw [hpend] at hp
      have hknown' : Recognized { s with pending := rest } :=
        hknown.shrink ⟨rfl, rfl⟩ (Int.le_refl _) (Finset.Subset.refl _)
      have haccounted' : Accounted { s with pending := rest } := haccounted.same rfl rfl
      dsimp only at hp ⊢
      rw [handleEvent]
      split
      · rename_i hserver
        rw [if_pos hserver] at hp
        have hcounting := acceptClient_counting { s with pending := rest } answers
        exact ⟨recognized_acceptClient (fun fd hfd => (hp fd hfd).1) hknown',
          haccounted'.same hcounting.1 hcounting.2⟩
      · rename_i hclient
        rw [if_neg hclient] at hp
        refine ⟨recognized_clientEvent eventFd answers hknown',
          accounted_clientEvent answers (fun hcount chunk hrecv => ?_) haccounted'⟩
        have hopen : eventFd ∈ s.kernel.sockets := by
          by_contra hclosed
          have hfailed := hp hclosed
          rw [hrecv] at hfailed
          cases hfailed
        exact hknown.known (Int.le_of_eq hcount) eventFd hopen

theorem always_accounted (x : Run) : x.Always fun s => Recognized s ∧ Accounted s := by
  refine x.invariant (fun s hs => ?_) fun s i hp h => accounted_step hp h
  obtain ⟨_, _, rfl⟩ := hs
  constructor
  · exact ⟨Int.le_refl 0, fun _ hfd => absurd hfd (Finset.notMem_empty _), fun _ => rfl,
      fun _ => rfl, fun _ _ hfd => absurd hfd (Finset.notMem_empty _)⟩
  · exact ⟨⟨rfl, Int.le_refl 0, Int.le_refl 0⟩, rfl⟩

theorem report_consistent (x : Run) : x.Always fun s => Consistent s.counters := by
  intro n
  exact (always_accounted x n).2.consistent

end ConnectionOrder.ServerExp2
