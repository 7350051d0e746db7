import ConnectionOrder.Pairing
import ConnectionOrder.Quotients
import ConnectionOrder.ServerExp2.Delivery

/-!
# What serverexp2 counts while two connections are accepted

Only data read while count is 2 reaches pick, the pair counters and the byte and
packet counters. There the two sockets play the two sides of a pairing.
-/

namespace ConnectionOrder.ServerExp2

open Machine Quotients

def SameCounting (s s' : State) : Prop :=
  s'.pick = s.pick ∧ ∃ one two, s'.counters =
    { s.counters with socket1totalCount := one, socket2totalCount := two }

def Counting (s s' : State) : Action → Prop
  | .data fd chunk =>
    if s.count = 2 then
      ∃ noted clock, SameCounting s noted ∧ SameNames s noted ∧
        s' = countData noted fd chunk.length clock
    else SameCounting s s'
  | .quiet | .place .. | .ended _ => SameCounting s s'

theorem SameCounting.refl (s : State) : SameCounting s s := ⟨rfl, _, _, rfl⟩

theorem counting_acceptClient (s : State) (answers : Answers) :
    SameCounting s (acceptClient s answers) := by
  rw [acceptClient]
  cases answers.accept with
  | none => exact ⟨rfl, _, _, rfl⟩
  | some fd =>
    dsimp only
    rw [nameSocket_shape, registerClient]
    split_ifs <;> exact ⟨rfl, _, _, rfl⟩

theorem counting_data (s : State) (fd : Fd) {answers : Answers} {chunk : Chunk bufferSize}
    (hrecv : answers.recv = .data chunk) :
    Counting s (clientEvent s fd answers) (.data fd chunk) := by
  obtain ⟨clocks, one, two, hnote⟩ := note_shape s fd answers.clock
  rw [clientEvent, hrecv]
  dsimp only
  rw [hnote, Counting]
  cases eq_or_ne s.count 2 with
  | inl htwo =>
    rw [if_pos htwo, if_pos htwo]
    refine ⟨{ s with
      clocks := clocks
      counters := { s.counters with socket1totalCount := one, socket2totalCount := two } },
      answers.clock, ⟨rfl, one, two, rfl⟩, ⟨rfl, rfl⟩, rfl⟩
  | inr hother =>
    rw [if_neg hother, if_neg hother]
    exact ⟨rfl, one, two, rfl⟩

theorem step_counting (s : State) (i : Input) : Counting s (step s i) (action s i) := by
  cases i with
  | wait batch | signal => exact SameCounting.refl s
  | event answers =>
    simp only [step, action]
    cases hpend : s.pending with
    | nil => exact SameCounting.refl s
    | cons eventFd rest =>
      simp only [handleEvent]
      split
      · have haccept := counting_acceptClient { s with pending := rest } answers
        cases answers.accept with
        | none => exact haccept
        | some fd => exact haccept
      · cases hrecv : answers.recv with
        | data chunk => exact counting_data { s with pending := rest } eventFd hrecv
        | eof | again | error =>
          rw [clientEvent, hrecv]
          exact SameCounting.refl s

/-! ## Pairs -/

/-- The connection that a counted chunk comes from. -/
def heard (s : State) (i : Input) : List Side :=
  match action s i with
  | .data fd _ => if fd = s.firstSocket then [.one] else if fd = s.secondSocket then [.two] else []
  | .quiet | .place .. | .ended _ => []

/-- The pair counters have moved from `base` by what the pairing has counted. -/
structure Paired (base : Counters) (g : Pairing) (s : State) : Prop where
  pick : s.pick = Pairing.pickOf 1 2 g.pending
  one : s.counters.socket1BeforeSocket2 = base.socket1BeforeSocket2 + g.oneBeforeTwo
  two : s.counters.socket2BeforeSocket1 = base.socket2BeforeSocket1 + g.twoBeforeOne
  both : s.counters.both = base.both + g.both

theorem Paired.same {base : Counters} {g : Pairing} {s s' : State} (h : Paired base g s)
    (hsame : SameCounting s s') : Paired base g s' := by
  obtain ⟨hpick, one, two, hcounters⟩ := hsame
  constructor
  · rw [hpick]
    exact h.pick
  · rw [hcounters]
    exact h.one
  · rw [hcounters]
    exact h.two
  · rw [hcounters]
    exact h.both

theorem Paired.socket1 {base : Counters} {g : Pairing} {s : State} (h : Paired base g s) :
    Paired base (g.observe .one) (pairSocket1 s) := by
  obtain ⟨hpick, hone, htwo, hboth⟩ := h
  obtain ⟨pending, one, two, both⟩ := g
  rw [pairSocket1, hpick]
  cases pending with
  | none => exact ⟨rfl, hone, htwo, hboth⟩
  | some side =>
    cases side with
    | one => exact ⟨hpick, hone, htwo, hboth⟩
    | two =>
      refine ⟨rfl, hone, ?_, ?_⟩
      · exact (congrArg (· + 1) htwo).trans (add_assoc _ _ _)
      · exact (congrArg (· + 1) hboth).trans (add_assoc _ _ _)

theorem Paired.socket2 {base : Counters} {g : Pairing} {s : State} (h : Paired base g s) :
    Paired base (g.observe .two) (pairSocket2 s) := by
  obtain ⟨hpick, hone, htwo, hboth⟩ := h
  obtain ⟨pending, one, two, both⟩ := g
  rw [pairSocket2, hpick]
  cases pending with
  | none => exact ⟨rfl, hone, htwo, hboth⟩
  | some side =>
    cases side with
    | one =>
      refine ⟨rfl, ?_, htwo, ?_⟩
      · exact (congrArg (· + 1) hone).trans (add_assoc _ _ _)
      · exact (congrArg (· + 1) hboth).trans (add_assoc _ _ _)
    | two => exact ⟨hpick, hone, htwo, hboth⟩

theorem Paired.countData {base : Counters} {g : Pairing} {s : State} (h : Paired base g s) (fd : Fd)
    (received : Nat) (clock : Fin 5 → Timeval) :
    Paired base ((if fd = s.firstSocket then [Side.one] else if fd = s.secondSocket then [.two]
      else []).foldl Pairing.observe g) (countData s fd received clock) := by
  rw [ServerExp2.countData]
  dsimp only
  split
  · have htally : Paired base g (tallyConn1 { s with counters := { s.counters with
        totalDataBytes := s.counters.totalDataBytes + UInt64.ofNat received } } received clock) :=
      ⟨h.pick, h.one, h.two, h.both⟩
    exact htally.socket1
  · split
    · have htally : Paired base g (tallyConn2 { s with counters := { s.counters with
          totalDataBytes := s.counters.totalDataBytes + UInt64.ofNat received } } received clock) :=
        ⟨h.pick, h.one, h.two, h.both⟩
      exact htally.socket2
    · exact ⟨h.pick, h.one, h.two, h.both⟩

theorem paired_step {base : Counters} {g : Pairing} {s : State} {i : Input}
    (hcount : s.count = 2) (h : Paired base g s) :
    Paired base ((heard s i).foldl Pairing.observe g) (step s i) := by
  have hstep := step_counting s i
  rw [heard]
  cases ha : action s i with
  | quiet | place | ended =>
    rw [ha] at hstep
    exact h.same hstep
  | data fd chunk =>
    rw [ha, Counting, if_pos hcount] at hstep
    obtain ⟨noted, clock, hsame, ⟨hfirst, hsecond⟩, hstep⟩ := hstep
    have hcounted := (h.same hsame).countData fd chunk.length clock
    rw [hfirst, hsecond] at hcounted
    rw [hstep]
    exact hcounted

/-- While count is 2, the pair counters follow the pairing of the two sockets. -/
theorem paired_run {s : State} {is : List Input} (hpick : s.pick = -1)
    (hcount : Along step (fun s _ => s.count = 2) s is) :
    Paired s.counters ((collect step heard s is).foldl Pairing.observe Pairing.fresh)
      (run step s is) := by
  induction is using List.reverseRecOn with
  | nil => exact ⟨hpick, (add_zero _).symm, (add_zero _).symm, (add_zero _).symm⟩
  | append_singleton is i ih =>
    rw [along_snoc] at hcount
    rw [collect_snoc, run_snoc, List.foldl_append]
    exact paired_step hcount.2 (ih hcount.1)

/-! ## Packets -/

/-- The lengths of the chunks counted for the first connection. -/
def counted1 (s : State) (i : Input) : List Nat :=
  match action s i with
  | .data fd chunk => if s.count = 2 ∧ fd = s.firstSocket then [chunk.length] else []
  | .quiet | .place .. | .ended _ => []

def counted2 (s : State) (i : Input) : List Nat :=
  match action s i with
  | .data fd chunk =>
    if s.count = 2 ∧ fd ≠ s.firstSocket ∧ fd = s.secondSocket then [chunk.length] else []
  | .quiet | .place .. | .ended _ => []

/-- The byte and packet counters behind the lengths counted so far. -/
structure Tallied (one two : List Nat) (c : Counters) : Prop where
  bytes1 : c.conn1Bytes = UInt64.ofNat one.sum
  packets1 : c.conn1Packets = UInt64.ofNat (whole packetSize one)
  bytes2 : c.conn2Bytes = UInt64.ofNat two.sum
  packets2 : c.conn2Packets = UInt64.ofNat (whole packetSize two)

theorem Tallied.same {one two : List Nat} {s s' : State} (h : Tallied one two s.counters)
    (hsame : SameCounting s s') : Tallied one two s'.counters := by
  obtain ⟨_, _, _, hcounters⟩ := hsame
  rw [hcounters]
  exact ⟨h.bytes1, h.packets1, h.bytes2, h.packets2⟩

theorem Tallied.countData {one two : List Nat} {s : State} (h : Tallied one two s.counters)
    (fd : Fd) (received : Nat) (clock : Fin 5 → Timeval) :
    Tallied (one ++ if fd = s.firstSocket then [received] else [])
      (two ++ if fd ≠ s.firstSocket ∧ fd = s.secondSocket then [received] else [])
      (countData s fd received clock).counters := by
  have hbytes : ∀ (lengths : List Nat) (total : UInt64), total = UInt64.ofNat lengths.sum →
      total + UInt64.ofNat received = UInt64.ofNat (lengths ++ [received]).sum := by
    intro lengths total htotal
    rw [htotal, List.sum_append, List.sum_singleton, UInt64.ofNat_add]
  have hpackets : ∀ (lengths : List Nat) (total : UInt64),
      total = UInt64.ofNat (whole packetSize lengths) →
      total + UInt64.ofNat (received / packetSize) =
        UInt64.ofNat (whole packetSize (lengths ++ [received])) := by
    intro lengths total htotal
    rw [htotal, whole_append, UInt64.ofNat_add]
    rfl
  rw [ServerExp2.countData]
  dsimp only
  cases Decidable.em (fd = s.firstSocket) with
  | inl hfirst =>
    have hnot : ¬(fd ≠ s.firstSocket ∧ fd = s.secondSocket) := fun hsecond => hsecond.1 hfirst
    rw [if_neg hnot, if_pos hfirst, if_pos hfirst, List.append_nil]
    obtain ⟨_, _, _, hpair⟩ := pairSocket1_shape (tallyConn1 { s with counters := { s.counters with
      totalDataBytes := s.counters.totalDataBytes + UInt64.ofNat received } } received clock)
    rw [hpair]
    exact ⟨hbytes _ _ h.bytes1, hpackets _ _ h.packets1, h.bytes2, h.packets2⟩
  | inr hfirst =>
    rw [if_neg hfirst, if_neg hfirst, List.append_nil]
    cases Decidable.em (fd = s.secondSocket) with
    | inl hsecond =>
      have hboth : fd ≠ s.firstSocket ∧ fd = s.secondSocket := ⟨hfirst, hsecond⟩
      rw [if_pos hboth, if_pos hsecond]
      obtain ⟨_, _, _, hpair⟩ := pairSocket2_shape (tallyConn2 { s with
        counters := { s.counters with
          totalDataBytes := s.counters.totalDataBytes + UInt64.ofNat received } } received clock)
      rw [hpair]
      exact ⟨h.bytes1, h.packets1, hbytes _ _ h.bytes2, hpackets _ _ h.packets2⟩
    | inr hsecond =>
      have hnot : ¬(fd ≠ s.firstSocket ∧ fd = s.secondSocket) := fun hboth => hsecond hboth.2
      rw [if_neg hnot, if_neg hsecond, List.append_nil]
      exact ⟨h.bytes1, h.packets1, h.bytes2, h.packets2⟩

theorem tallied_step {one two : List Nat} {s : State} (i : Input) (h : Tallied one two s.counters) :
    Tallied (one ++ counted1 s i) (two ++ counted2 s i) (step s i).counters := by
  have hstep := step_counting s i
  rw [counted1, counted2]
  cases ha : action s i with
  | quiet | place | ended =>
    rw [ha] at hstep
    dsimp only
    rw [List.append_nil, List.append_nil]
    exact h.same hstep
  | data fd chunk =>
    rw [ha, Counting] at hstep
    dsimp only
    split at hstep
    · rename_i hcount
      obtain ⟨noted, clock, hsame, ⟨hfirst, hsecond⟩, hstep⟩ := hstep
      have hcounted := (h.same hsame).countData fd chunk.length clock
      rw [hfirst, hsecond] at hcounted
      simp only [hcount, true_and]
      rw [hstep]
      exact hcounted
    · rename_i hcount
      rw [if_neg (fun hboth => hcount hboth.1), if_neg (fun hboth => hcount hboth.1),
        List.append_nil, List.append_nil]
      exact h.same hstep

theorem tallied_run (x : Run) :
    Tallied (x.observed counted1) (x.observed counted2) x.final.counters := by
  apply x.history_induction (P := fun is => Tallied (collect step counted1 x.start is)
    (collect step counted2 x.start is) (run step x.start is).counters)
  · obtain ⟨_, _, hstart⟩ := x.begins
    rw [run_nil, hstart]
    exact ⟨rfl, rfl, rfl, rfl⟩
  · intro is i _ _ ih
    rw [collect_snoc, collect_snoc, run_snoc]
    exact tallied_step i ih

end ConnectionOrder.ServerExp2
