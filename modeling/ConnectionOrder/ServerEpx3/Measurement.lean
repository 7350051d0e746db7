import ConnectionOrder.Pairing
import ConnectionOrder.ServerEpx3.Fairness
import ConnectionOrder.ServerEpx3.Summaries

/-!
# Who came first, one connection at a time

The measurement of the connection in the non-persistent slot is a pairing of the
events of the two slots. It starts afresh with the connection and drops what is
pending when either slot changes hands. The server keeps what is pending in pick
and never resets it when a slot changes hands.
-/

namespace ConnectionOrder.ServerEpx3

open Machine

def occupant (k : Kernel) (slot : Fd) : Option Nat := if slot = -1 then none else some (k.conn slot)

/-- The slots changing hands: a new connection to measure, or a new partner. -/
def handOver (g : Pairing) (s s' : State) : Pairing :=
  if occupant s.kernel s.slots.nonPersistentFd ≠ occupant s'.kernel s'.slots.nonPersistentFd then
    Pairing.fresh
  else if occupant s.kernel s.slots.persistentFd ≠ occupant s'.kernel s'.slots.persistentFd then
    g.restart
  else g

def hear (g : Pairing) (slots : Slots) (fd : Fd) : Pairing :=
  if fd = slots.persistentFd then g.observe .one
  else if fd = slots.nonPersistentFd then g.observe .two
  else g

/-- The measurement after a step. Once a connection has finished, whatever takes
its slot is measured afresh. -/
def measure (g : Pairing) (s : State) (i : Input) : Pairing :=
  match action s i with
  | .finish => Pairing.fresh
  | .data fd _ _ _ => hear (handOver g s (step s i)) (step s i).slots fd
  | _ => handOver g s (step s i)

def Counted (p : Progress) (g : Pairing) : Prop :=
  p.persistentCount = UInt64.ofNat g.oneBeforeTwo ∧
  p.nonPersistentCount = UInt64.ofNat g.twoBeforeOne ∧
  p.both = g.both

/-- Nothing is pending when a connection leaves its slot or the number of a slot is
reused, and no event comes from a descriptor that both slots hold. -/
def Separate (s : State) (i : Input) : Prop :=
  match action s i with
  | .place fd _ => fd = s.slots.persistentFd ∨ fd = s.slots.nonPersistentFd → s.pick = -1
  | .data fd chunk _ _ => (Misidentified s fd chunk → s.pick = -1) ∧
      (fd = s.slots.persistentFd → fd ≠ s.slots.nonPersistentFd)
  | .leave _ | .finish => s.pick = -1
  | .quiet | .stray _ => True

instance (s : State) (i : Input) : Decidable (Separate s i) := by
  unfold Separate
  match action s i with
  | .data .. => infer_instance
  | .quiet | .place .. | .leave _ | .finish | .stray _ => infer_instance

def Picked (s : State) : Option Side → Prop
  | none => s.pick = -1
  | some .one => s.pick = s.slots.persistentFd ∧ s.slots.persistentFd ≠ s.slots.nonPersistentFd
  | some .two => s.pick = s.slots.nonPersistentFd ∧
      s.slots.persistentFd ≠ s.slots.nonPersistentFd ∧
      s.slots.nonPersistentFd ∈ s.kernel.sockets

/-- The counters of the server follow the measurement. They are still zero when
the non-persistent slot names a closed descriptor or the same one as the other. -/
structure Follows (g : Pairing) (s : State) : Prop where
  idle : s.slots.persistentFd = -1 ∨ s.slots.nonPersistentFd = -1 → s.pick = -1
  counted : s.slots.nonPersistentFd ≠ -1 → Counted s.progress g
  picked : s.slots.persistentFd ≠ -1 → s.slots.nonPersistentFd ≠ -1 → Picked s g.pending
  alone : s.slots.persistentFd = -1 → g.pending ≠ some .one
  closed : s.slots.nonPersistentFd ∉ s.kernel.sockets → Counted s.progress Pairing.fresh
  shared : s.slots.persistentFd = s.slots.nonPersistentFd → Counted s.progress Pairing.fresh

theorem follows_fresh {s : State} (hpick : s.pick = -1)
    (hcounted : Counted s.progress Pairing.fresh) : Follows Pairing.fresh s :=
  ⟨fun _ => hpick, fun _ => hcounted, fun _ _ => hpick, fun _ => by decide,
    fun _ => hcounted, fun _ => hcounted⟩

theorem follows_start {s : State} (h : Initial s) : Follows Pairing.fresh s := by
  obtain ⟨_, _, _, _, _, rfl⟩ := h
  exact follows_fresh rfl ⟨rfl, rfl, rfl⟩

theorem occupant_of_ne {k : Kernel} {slot : Fd} (h : slot ≠ -1) :
    occupant k slot = some (k.conn slot) := if_neg h

theorem occupant_eq_none_iff {k : Kernel} {slot : Fd} : occupant k slot = none ↔ slot = -1 := by
  rw [occupant]
  split <;> simp_all

theorem Follows.handedOver {g : Pairing} {s s' : State} (h : Follows g s) (hpick : s'.pick = -1)
    (hprogress : ∀ g, Counted s.progress g → Counted s'.progress g)
    (hchange : occupant s.kernel s.slots.nonPersistentFd ≠
        occupant s'.kernel s'.slots.nonPersistentFd ∨
      occupant s.kernel s.slots.persistentFd ≠ occupant s'.kernel s'.slots.persistentFd)
    (hnew : occupant s.kernel s.slots.nonPersistentFd ≠
        occupant s'.kernel s'.slots.nonPersistentFd → Counted s.progress Pairing.fresh)
    (hclosed : s'.slots.nonPersistentFd ∉ s'.kernel.sockets → Counted s.progress Pairing.fresh)
    (hshared : s'.slots.persistentFd = s'.slots.nonPersistentFd →
      Counted s.progress Pairing.fresh) : Follows (handOver g s s') s' := by
  have hpending : (handOver g s s').pending = none := by
    rw [handOver]
    split
    · rfl
    · rename_i hsame
      rw [if_pos (hchange.resolve_left hsame)]
      rfl
  constructor
  · exact fun _ => hpick
  · intro hbusy
    apply hprogress
    rw [handOver]
    split
    · rename_i hnp
      exact hnew hnp
    · rename_i hsame
      rw [if_pos (hchange.resolve_left hsame)]
      refine h.counted fun hfree => hbusy ?_
      rw [← occupant_eq_none_iff (k := s'.kernel), ← not_not.mp hsame]
      exact occupant_eq_none_iff.mpr hfree
  · intro _ _
    rw [hpending]
    exact hpick
  · intro _
    rw [hpending]
    decide
  · exact fun hnot => hprogress _ (hclosed hnot)
  · exact fun hsame => hprogress _ (hshared hsame)

theorem Follows.unchanged {g : Pairing} {s s' : State} (h : Follows g s) (hpick : s'.pick = s.pick)
    (hprogress : s'.progress = s.progress)
    (hper : s'.slots.persistentFd = s.slots.persistentFd)
    (hnon : s'.slots.nonPersistentFd = s.slots.nonPersistentFd)
    (hconn : ∀ slot, slot = s.slots.persistentFd ∨ slot = s.slots.nonPersistentFd →
      s'.kernel.conn slot = s.kernel.conn slot)
    (hopen : s.slots.nonPersistentFd ∈ s'.kernel.sockets ↔
      s.slots.nonPersistentFd ∈ s.kernel.sockets) : Follows (handOver g s s') s' := by
  have hsame : handOver g s s' = g := by
    rw [handOver, hper, hnon, if_neg, if_neg]
    · rw [occupant, occupant, hconn _ (.inl rfl)]
      exact fun hne => hne rfl
    · rw [occupant, occupant, hconn _ (.inr rfl)]
      exact fun hne => hne rfl
  rw [hsame]
  constructor
  · rw [hper, hnon, hpick]
    exact h.idle
  · rw [hnon, hprogress]
    exact h.counted
  · intro hp hn
    rw [hper] at hp
    rw [hnon] at hn
    have hpicked := h.picked hp hn
    cases hpend : g.pending with
    | none =>
      rw [hpend] at hpicked
      exact hpick.trans hpicked
    | some side =>
      rw [hpend] at hpicked
      cases side with
      | one =>
        rw [Picked, hpick, hper, hnon]
        exact hpicked
      | two =>
        rw [Picked, hpick, hper, hnon, hopen]
        exact hpicked
  · rw [hper]
    exact h.alone
  · rw [hnon, hprogress, hopen]
    exact h.closed
  · rw [hper, hnon, hprogress]
    exact h.shared

/-! ## Accepting -/

theorem sockets_registerClient_iff (s : State) {client fd : Fd} (add : Bool) (h : fd ≠ client) :
    fd ∈ (registerClient s client add).kernel.sockets ↔ fd ∈ s.kernel.sockets := by
  rw [registerClient]
  split
  · exact Iff.rfl
  · exact Finset.mem_erase.trans (and_iff_right h)

theorem sockets_place_iff (s : State) {client fd : Fd} (connectTime : Timeval) (add : Bool)
    (h : fd ≠ client) :
    fd ∈ (perform s add (.place client connectTime)).kernel.sockets ↔ fd ∈ s.kernel.sockets := by
  have haccept : fd ∈ (s.kernel.accept client).sockets ↔ fd ∈ s.kernel.sockets :=
    Finset.mem_insert.trans (or_iff_right h)
  rw [perform, placeClient]
  split
  · exact (sockets_registerClient_iff _ add h).trans haccept
  · split
    · exact (sockets_registerClient_iff _ add h).trans haccept
    · split
      · exact haccept
      · exact (Finset.mem_erase.trans (and_iff_right h)).trans haccept

theorem slots_place (s : State) (fd : Fd) (connectTime : Timeval) (add : Bool) :
    let after := (perform s add (.place fd connectTime)).slots
    (s.slots.persistentFd = -1 ∧ after.persistentFd = fd ∧
      after.nonPersistentFd = s.slots.nonPersistentFd) ∨
    (s.slots.nonPersistentFd = -1 ∧ after.persistentFd = s.slots.persistentFd ∧
      after.nonPersistentFd = fd) ∨
    (s.slots.persistentFd ≠ -1 ∧ s.slots.nonPersistentFd ≠ -1 ∧
      after.persistentFd = s.slots.persistentFd ∧
      after.nonPersistentFd = s.slots.nonPersistentFd) := by
  rw [perform, placeClient]
  split
  · rename_i hper
    rw [slots_registerClient]
    exact .inl ⟨hper, rfl, rfl⟩
  · rename_i hper
    split
    · rename_i hnon
      rw [slots_registerClient]
      exact .inr (.inl ⟨hnon, rfl, rfl⟩)
    · rename_i hnon
      split
      · exact .inr (.inr ⟨hper, hnon, rfl, rfl⟩)
      · exact .inr (.inr ⟨hper, hnon, rfl, rfl⟩)

theorem occupant_reused {s s' : State} {fd : Fd} (hnum : NumbersBounded s) (hfd : 0 ≤ fd)
    (hconn : s'.kernel.conn = (s.kernel.accept fd).conn) :
    occupant s.kernel fd ≠ occupant s'.kernel fd := by
  rw [occupant_of_ne (ne_sentinel hfd), occupant_of_ne (ne_sentinel hfd), hconn,
    Kernel.conn_accept_self]
  intro hsame
  have hle := hnum fd
  have heq := Option.some.inj hsame
  omega

theorem follows_place {g : Pairing} {s : State} {fd : Fd} (connectTime : Timeval) (add : Bool)
    (h : Follows g s) (hpos : SocketsNonneg s) (hnum : NumbersBounded s) (hfd : 0 ≤ fd)
    (hfresh : fd ∉ s.kernel.sockets)
    (hpick : fd = s.slots.persistentFd ∨ fd = s.slots.nonPersistentFd → s.pick = -1) :
    Follows (handOver g s (perform s add (.place fd connectTime)))
      (perform s add (.place fd connectTime)) := by
  have hconn := (numbers_perform s add (.place fd connectTime)).1
  have hsockets : ∀ other, other ≠ fd →
      (other ∈ (perform s add (.place fd connectTime)).kernel.sockets ↔
        other ∈ s.kernel.sockets) := fun _ hother => sockets_place_iff s connectTime add hother
  have hslots := slots_place s fd connectTime add
  have hkept : (perform s add (.place fd connectTime)).pick = s.pick ∧
      (perform s add (.place fd connectTime)).progress = s.progress := by
    obtain ⟨_, _, _, _, hshape⟩ := place_shape s add fd connectTime
    rw [hshape]
    exact ⟨rfl, rfl⟩
  have hsentinel := sentinel_closed hpos
  generalize perform s add (.place fd connectTime) = s' at hconn hsockets hslots hkept ⊢
  obtain ⟨hkeep, hprogress⟩ := hkept
  have hcounted : ∀ g, Counted s.progress g → Counted s'.progress g := fun _ => hprogress ▸ id
  -- A slot that holds the new number, or none, has seen no pair yet.
  have hzero : fd = s.slots.nonPersistentFd → Counted s.progress Pairing.fresh :=
    fun heq => h.closed (heq ▸ hfresh)
  have hnew : s'.slots.nonPersistentFd = s.slots.nonPersistentFd →
      occupant s.kernel s.slots.nonPersistentFd ≠ occupant s'.kernel s'.slots.nonPersistentFd →
      Counted s.progress Pairing.fresh := by
    intro hsame hchange
    refine hzero (Decidable.byContradiction fun hne => hchange ?_)
    rw [hsame, occupant, occupant, hconn]
    dsimp only
    rw [Kernel.conn_accept_of_ne _ (fun heq => hne heq.symm)]
  have hclosed : s'.slots.nonPersistentFd = s.slots.nonPersistentFd →
      s'.slots.nonPersistentFd ∉ s'.kernel.sockets → Counted s.progress Pairing.fresh := by
    intro hsame hnot
    cases eq_or_ne fd s.slots.nonPersistentFd with
    | inl heq => exact hzero heq
    | inr hne =>
      rw [hsame, hsockets _ hne.symm] at hnot
      exact h.closed hnot
  rcases hslots with ⟨hper, hper', hnon'⟩ | ⟨hnon, hper', hnon'⟩ | ⟨hper, hnon, hper', hnon'⟩
  · refine h.handedOver (hkeep.trans (h.idle (.inl hper))) hcounted (.inr ?_) (hnew hnon')
      (hclosed hnon') fun hsame => hzero ?_
    · rw [hper, hper', occupant_of_ne (ne_sentinel hfd)]
      exact fun habsurd => Option.some_ne_none _ habsurd.symm
    · rw [← hper', hsame, hnon']
  · have hfree : Counted s.progress Pairing.fresh := h.closed (hnon ▸ hsentinel)
    refine h.handedOver (hkeep.trans (h.idle (.inr hnon))) hcounted (.inl ?_) (fun _ => hfree)
      (fun _ => hfree) fun _ => hfree
    rw [hnon, hnon', occupant_of_ne (ne_sentinel hfd)]
    exact fun habsurd => Option.some_ne_none _ habsurd.symm
  · have hshared : s'.slots.persistentFd = s'.slots.nonPersistentFd →
        Counted s.progress Pairing.fresh := by
      rw [hper', hnon']
      exact h.shared
    cases eq_or_ne fd s.slots.nonPersistentFd with
    | inl heq =>
      refine h.handedOver (hkeep.trans (hpick (.inr heq))) hcounted (.inl ?_) (hnew hnon')
        (hclosed hnon') hshared
      rw [hnon', ← heq]
      exact occupant_reused hnum hfd hconn
    | inr hne =>
      cases eq_or_ne fd s.slots.persistentFd with
      | inl heq' =>
        refine h.handedOver (hkeep.trans (hpick (.inl heq'))) hcounted (.inr ?_) (hnew hnon')
          (hclosed hnon') hshared
        rw [hper', ← heq']
        exact occupant_reused hnum hfd hconn
      | inr hne' =>
        refine h.unchanged hkeep hprogress hper' hnon' ?_ (hsockets _ hne.symm)
        rintro slot (rfl | rfl)
        · rw [hconn]
          exact Kernel.conn_accept_of_ne _ hne'.symm
        · rw [hconn]
          exact Kernel.conn_accept_of_ne _ hne.symm

/-! ## Data -/

theorem Follows.tallyPersistent {g : Pairing} {s : State} (h : Follows g s) (n : Nat)
    (time endTime : Timeval) : Follows g (tallyPersistent s n time endTime) :=
  ⟨h.idle, h.counted, h.picked, h.alone, h.closed, h.shared⟩

theorem Follows.tallyNonPersistent {g : Pairing} {s : State} (h : Follows g s) (n : Nat)
    (time endTime : Timeval) : Follows g (tallyNonPersistent s n time endTime) :=
  ⟨h.idle, h.counted, h.picked, h.alone, h.closed, h.shared⟩

theorem follows_pairPersistent {g : Pairing} {s : State} (h : Follows g s)
    (hper : s.slots.persistentFd ≠ -1) (hne : s.slots.persistentFd ≠ s.slots.nonPersistentFd) :
    Follows (g.observe .one) (pairPersistent s) := by
  rw [pairPersistent]
  cases eq_or_ne s.slots.nonPersistentFd (-1) with
  | inl hfree =>
    rw [if_neg (fun hboth => hboth.2 hfree)]
    exact ⟨h.idle, fun hbusy => absurd hfree hbusy, fun _ hbusy => absurd hfree hbusy,
      fun habsurd => absurd habsurd hper, h.closed, h.shared⟩
  | inr hbusy =>
    rw [if_pos ⟨hper, hbusy⟩]
    obtain ⟨hcount, hcount', hboth⟩ := h.counted hbusy
    have hpicked := h.picked hper hbusy
    have hidle : ∀ pick : Fd, s.slots.persistentFd = -1 ∨ s.slots.nonPersistentFd = -1 →
        pick = -1 := fun _ habsurd => (habsurd.elim hper hbusy).elim
    obtain ⟨pending, one, two, both⟩ := g
    cases pending with
    | none =>
      have hpick : s.pick = -1 := hpicked
      rw [if_pos hpick]
      exact ⟨hidle _, fun _ => ⟨hcount, hcount', hboth⟩, fun _ _ => ⟨rfl, hne⟩,
        fun habsurd => absurd habsurd hper, h.closed, h.shared⟩
    | some side =>
      cases side with
      | one =>
        rw [if_neg (fun hnone => hper (hpicked.1.symm.trans hnone)),
          if_neg (fun hother => hne (hpicked.1.symm.trans hother))]
        exact h
      | two =>
        obtain ⟨hpick, _, hopen⟩ := hpicked
        rw [if_neg (fun hnone => hbusy (hpick.symm.trans hnone)), if_pos hpick]
        refine ⟨hidle _, fun _ => ⟨hcount, ?_, ?_⟩, fun _ _ => rfl,
          fun habsurd => absurd habsurd hper, fun hclosed => absurd hopen hclosed,
          fun hsame => absurd hsame hne⟩
        · rw [hcount']
          exact (UInt64.ofNat_add _ _).symm
        · rw [hboth]
          rfl

theorem follows_pairNonPersistent {g : Pairing} {s : State} (h : Follows g s)
    (hnon : s.slots.nonPersistentFd ≠ -1) (hopen : s.slots.nonPersistentFd ∈ s.kernel.sockets)
    (hne : s.slots.persistentFd ≠ s.slots.nonPersistentFd) :
    Follows (g.observe .two) (pairNonPersistent s) := by
  have hclosed : ∀ p : Progress, s.slots.nonPersistentFd ∉ s.kernel.sockets →
      Counted p Pairing.fresh := fun _ habsurd => absurd hopen habsurd
  have hshared : ∀ p : Progress, s.slots.persistentFd = s.slots.nonPersistentFd →
      Counted p Pairing.fresh := fun _ habsurd => absurd habsurd hne
  have hother : ∀ g : Pairing, (g.observe .two).pending ≠ some .one :=
    fun _ hone => absurd (Pairing.pending_observe hone) (by decide)
  have hcounted := h.counted hnon
  have halone := h.alone
  rw [pairNonPersistent]
  obtain ⟨pending, one, two, both⟩ := g
  cases eq_or_ne s.slots.persistentFd (-1) with
  | inl hfree =>
    rw [if_neg (fun hboth => hboth.1 hfree)]
    have hpicked : ∀ g : Pairing, s.slots.persistentFd ≠ -1 → s.slots.nonPersistentFd ≠ -1 →
        Picked s g.pending := fun _ habsurd => absurd hfree habsurd
    cases pending with
    | none =>
      exact ⟨h.idle, fun _ => hcounted, hpicked _, fun _ => hother _, hclosed _, hshared _⟩
    | some side =>
      cases side with
      | one => exact absurd rfl (halone hfree)
      | two =>
        exact ⟨h.idle, fun _ => hcounted, hpicked _, fun _ => hother _, hclosed _, hshared _⟩
  | inr hbusy =>
    rw [if_pos ⟨hbusy, hnon⟩]
    obtain ⟨hcount, hcount', hboth⟩ := hcounted
    have hpicked := h.picked hbusy hnon
    have hidle : ∀ pick : Fd, s.slots.persistentFd = -1 ∨ s.slots.nonPersistentFd = -1 →
        pick = -1 := fun _ habsurd => (habsurd.elim hbusy hnon).elim
    cases pending with
    | none =>
      have hpick : s.pick = -1 := hpicked
      rw [if_pos hpick]
      exact ⟨hidle _, fun _ => ⟨hcount, hcount', hboth⟩, fun _ _ => ⟨rfl, hne, hopen⟩,
        fun _ => hother _, hclosed _, hshared _⟩
    | some side =>
      cases side with
      | one =>
        obtain ⟨hpick, _⟩ := hpicked
        rw [if_neg (fun hnone => hbusy (hpick.symm.trans hnone)), if_pos hpick]
        refine ⟨hidle _, fun _ => ⟨?_, hcount', ?_⟩, fun _ _ => rfl, fun _ => hother _,
          hclosed _, hshared _⟩
        · rw [hcount]
          exact (UInt64.ofNat_add _ _).symm
        · rw [hboth]
          rfl
      | two =>
        rw [if_neg (fun hnone => hnon (hpicked.1.symm.trans hnone)),
          if_neg (fun hother => hne (hother.symm.trans hpicked.1))]
        exact h

theorem follows_countData {g : Pairing} {s : State} {fd : Fd} (h : Follows g s) (hfd : fd ≠ -1)
    (hopen : fd ∈ s.kernel.sockets)
    (hone : fd = s.slots.persistentFd → fd ≠ s.slots.nonPersistentFd) (n : Nat)
    (time endTime : Timeval) : Follows (hear g s.slots fd) (countData s fd n time endTime) := by
  rw [hear, countData]
  split
  · rename_i hper
    apply follows_pairPersistent (h.tallyPersistent n time endTime)
    · exact hper ▸ hfd
    · exact hper ▸ hone hper
  · rename_i hper
    split
    · rename_i hnon
      apply follows_pairNonPersistent (h.tallyNonPersistent n time endTime)
      · exact hnon ▸ hfd
      · exact hnon ▸ hopen
      · exact fun hsame => hper (hnon.trans hsame.symm)
    · exact h

theorem handOver_congr (g : Pairing) (s s' s'' : State) (hkernel : s'.kernel = s''.kernel)
    (hslots : s'.slots = s''.slots) : handOver g s s' = handOver g s s'' := by
  rw [handOver, hkernel, hslots, handOver]

theorem handOver_self (g : Pairing) (s : State) : handOver g s s = g := by
  rw [handOver, if_neg (fun h => h rfl), if_neg (fun h => h rfl)]

theorem follows_demote {g : Pairing} {s : State} {fd : Fd} (h : Follows g s)
    (hpos : SocketsNonneg s) (hfd : fd ≠ -1) (hper : fd = s.slots.persistentFd)
    (hne : fd ≠ s.slots.nonPersistentFd) (hpick : s.pick = -1) :
    Follows (handOver g s (demote s fd)) (demote s fd) := by
  have hsentinel := sentinel_closed hpos
  have hleft : occupant s.kernel s.slots.persistentFd ≠ occupant s.kernel (-1) := by
    rw [← hper, occupant_of_ne hfd]
    exact Option.some_ne_none _
  rw [demote]
  split
  · rename_i hfree
    have hzero : Counted s.progress Pairing.fresh := h.closed (hfree ▸ hsentinel)
    refine h.handedOver hpick (fun _ hcount => hcount) (.inl ?_) (fun _ => hzero)
      (fun _ => hzero) (fun _ => hzero)
    rw [hfree]
    exact hleft.symm
  · rename_i hbusy
    split
    · refine h.handedOver hpick (fun _ hcount => hcount) (.inr hleft) (fun hnp => absurd rfl hnp)
        h.closed fun hsame => absurd hsame.symm hbusy
    · refine h.handedOver hpick (fun _ hcount => hcount) (.inr hleft) (fun hnp => absurd rfl hnp)
        (fun hnot => h.closed fun hmem => hnot ?_) fun hsame => absurd hsame.symm hbusy
      exact Finset.mem_erase.mpr ⟨hne.symm, hmem⟩

theorem follows_readData {g : Pairing} {s : State} {fd : Fd} (h : Follows g s)
    (hpos : SocketsNonneg s) (hopen : fd ∈ s.kernel.sockets) (chunk : Chunk bufferSize)
    (time endTime : Timeval) (hpick : Misidentified s fd chunk → s.pick = -1)
    (hone : fd = s.slots.persistentFd → fd ≠ s.slots.nonPersistentFd) :
    Follows (hear (handOver g s (readData s fd chunk time endTime))
        (readData s fd chunk time endTime).slots fd) (readData s fd chunk time endTime) := by
  have hfd := ne_sentinel_of_open hpos hopen
  rw [readData]
  split
  · rename_i hmis
    -- The persistent slot is empty before the chunk is heard.
    have hdemote := follows_demote h hpos hfd hmis.1 (hone hmis.1) (hpick hmis)
    have hper : (demote s fd).slots.persistentFd = -1 := by
      rw [demote]
      split_ifs <;> rfl
    split
    · rename_i hrej
      have hnon : (demote s fd).slots.nonPersistentFd = s.slots.nonPersistentFd := by
        rw [demote, if_neg hrej.1, dif_neg hrej.2]
      rw [hear, hper, hnon, if_neg hfd, if_neg (hone hmis.1)]
      exact hdemote
    · rename_i hkeep
      obtain ⟨_, _, _, _, hshape⟩ := countData_shape (demote s fd) fd chunk.length time endTime
      have hkernel : (demote s fd).kernel = s.kernel := by
        rw [demote]
        split
        · rfl
        · rename_i hbusy
          split
          · rfl
          · rename_i hfull
            exact absurd ⟨hbusy, hfull⟩ hkeep
      have hcount := follows_countData hdemote hfd (hkernel ▸ hopen)
        (fun hsame => absurd (hsame.trans hper) hfd) chunk.length time endTime
      rw [handOver_congr g s _ (demote s fd) (by rw [hshape]) (by rw [hshape])]
      have hslots : (countData (demote s fd) fd chunk.length time endTime).slots =
          (demote s fd).slots := by rw [hshape]
      rw [hslots]
      exact hcount
  · obtain ⟨_, _, _, _, hshape⟩ := countData_shape s fd chunk.length time endTime
    have hslots : (countData s fd chunk.length time endTime).slots = s.slots := by rw [hshape]
    rw [handOver_congr g s _ s (by rw [hshape]) hslots, handOver_self, hslots]
    exact follows_countData h hfd hopen hone chunk.length time endTime

/-! ## One step -/

theorem follows_leave {g : Pairing} {s : State} (h : Follows g s) (hpos : SocketsNonneg s)
    (hpick : s.pick = -1) (time : Timeval) :
    Follows (handOver g s (leavePersistent s time)) (leavePersistent s time) := by
  have hsentinel := sentinel_closed hpos
  cases eq_or_ne s.slots.persistentFd (-1) with
  | inl hfree =>
    refine h.unchanged rfl rfl hfree.symm rfl (fun _ _ => rfl) ?_
    change _ ∈ s.kernel.sockets.erase s.slots.persistentFd ↔ _
    rw [hfree, Finset.erase_eq_of_notMem hsentinel]
  | inr hbusy =>
    refine h.handedOver hpick (fun _ hcount => hcount) (.inr ?_) (fun hnp => absurd rfl hnp)
      (fun hnot => ?_) fun hsame => ?_
    · rw [occupant_of_ne hbusy]
      exact Option.some_ne_none _
    · cases eq_or_ne s.slots.nonPersistentFd s.slots.persistentFd with
      | inl hsame => exact h.shared hsame.symm
      | inr hne => exact h.closed fun hmem => hnot (Finset.mem_erase.mpr ⟨hne, hmem⟩)
    · have hfree : (-1 : Fd) = s.slots.nonPersistentFd := hsame
      exact h.closed (hfree ▸ hsentinel)

theorem follows_finish {s : State} (hpick : s.pick = -1) (add : Bool) :
    Follows Pairing.fresh (perform s add .finish) := by
  obtain ⟨_, _, _, _, _, hshape⟩ := promoteQueued_shape (expireInactive s) add
  rw [perform, hshape]
  exact follows_fresh hpick ⟨rfl, rfl, rfl⟩

theorem follows_step {g : Pairing} {s : State} {i : Input} (hp : Permitted s i)
    (hpos : SocketsNonneg s) (hnum : NumbersBounded s) (hsep : Separate s i) (h : Follows g s) :
    Follows (measure g s i) (step s i) := by
  obtain ⟨running, pending, time, halike⟩ := step_alike s i
  have hperform : Follows (measure g s i) (perform s i.add (action s i)) := by
    have hkernel : (step s i).kernel = (perform s i.add (action s i)).kernel := by rw [halike]
    have hslots : (step s i).slots = (perform s i.add (action s i)).slots := by rw [halike]
    rw [Separate] at hsep
    rw [measure, hslots, handOver_congr g s _ _ hkernel hslots]
    cases ha : action s i with
    | quiet =>
      rw [ha] at hsep
      exact h.unchanged rfl rfl rfl rfl (fun _ _ => rfl) Iff.rfl
    | place fd connectTime =>
      rw [ha] at hsep
      obtain ⟨hfd, _, hfresh⟩ := permitted_place hp ha
      exact follows_place connectTime i.add h hpos hnum hfd hfresh hsep
    | data fd chunk time endTime =>
      rw [ha] at hsep
      exact follows_readData h hpos (permitted_data hp ha) chunk time endTime hsep.1 hsep.2
    | leave time =>
      rw [ha] at hsep
      exact follows_leave h hpos hsep time
    | finish =>
      rw [ha] at hsep
      exact follows_finish hsep i.add
    | stray fd =>
      refine h.unchanged rfl rfl rfl rfl (fun _ _ => rfl) ?_
      have hcaused := action_caused s i
      rw [ha] at hcaused
      exact Finset.mem_erase.trans (and_iff_right hcaused.2.2.symm)
  rw [halike]
  exact ⟨hperform.idle, hperform.counted, hperform.picked, hperform.alone, hperform.closed,
    hperform.shared⟩

def measured (x : Run) : Pairing := x.tracked measure Pairing.fresh

theorem follows_run {x : Run} (hsep : x.EachStep Separate) (n : Nat) :
    Follows (measured (x.upTo n)) (x.stateAt n) ∧ Numbered (x.stateAt n) := by
  apply x.track_invariant (Q := fun g s => Follows g s ∧ Numbered s)
    ⟨follows_start x.begins, numbered_start x.begins⟩ _ hsep
  rintro g s i hp hstep ⟨h, hnum⟩
  exact ⟨follows_step hp hnum.sockets hnum.conn hstep h, numbered_step hp hnum⟩

/-! ## What is pending -/

theorem Follows.pick_slot {g : Pairing} {s : State} (h : Follows g s) (hpick : s.pick ≠ -1) :
    s.pick = s.slots.persistentFd ∨ s.pick = s.slots.nonPersistentFd := by
  have hpicked := h.picked (fun hfree => hpick (h.idle (.inl hfree)))
    (fun hfree => hpick (h.idle (.inr hfree)))
  cases hpend : g.pending with
  | none =>
    rw [hpend] at hpicked
    exact absurd hpicked hpick
  | some side =>
    rw [hpend] at hpicked
    cases side with
    | one => exact .inl hpicked.1
    | two => exact .inr hpicked.1

theorem pick_countData (s : State) (fd : Fd) (n : Nat) (time endTime : Timeval)
    (hpick : s.pick ≠ -1) : (countData s fd n time endTime).pick = s.pick ∨
      (countData s fd n time endTime).pick = -1 := by
  have hper : ∀ s : State, s.pick ≠ -1 → (pairPersistent s).pick = s.pick ∨
      (pairPersistent s).pick = -1 := by
    intro s hs
    rw [pairPersistent, if_neg hs]
    split_ifs
    · exact .inr rfl
    · exact .inl rfl
    · exact .inl rfl
  have hnon : ∀ s : State, s.pick ≠ -1 → (pairNonPersistent s).pick = s.pick ∨
      (pairNonPersistent s).pick = -1 := by
    intro s hs
    rw [pairNonPersistent, if_neg hs]
    split_ifs
    · exact .inr rfl
    · exact .inl rfl
    · exact .inl rfl
  rw [countData]
  split
  · exact hper (tallyPersistent s n time endTime) hpick
  · split
    · exact hnon (tallyNonPersistent s n time endTime) hpick
    · exact .inl rfl

theorem pick_kept {g : Pairing} {s : State} {i : Input} (hsep : Separate s i) (h : Follows g s)
    (hpick : s.pick ≠ -1) (hnext : (step s i).pick ≠ -1) :
    (step s i).pick = s.pick ∧
    (step s i).slots.persistentFd = s.slots.persistentFd ∧
    (step s i).slots.nonPersistentFd = s.slots.nonPersistentFd ∧
    (step s i).kernel.conn s.pick = s.kernel.conn s.pick := by
  obtain ⟨_, _, _, halike⟩ := step_alike s i
  rw [halike] at hnext ⊢
  dsimp only at hnext ⊢
  rw [Separate] at hsep
  generalize action s i = a at hsep hnext ⊢
  cases a with
  | quiet | stray => exact ⟨rfl, rfl, rfl, rfl⟩
  | leave | finish => exact absurd hsep hpick
  | place fd connectTime =>
    have hkeep : (perform s i.add (.place fd connectTime)).pick = s.pick := by
      obtain ⟨_, _, _, _, hshape⟩ := place_shape s i.add fd connectTime
      rw [hshape]
    have hconn := (numbers_perform s i.add (.place fd connectTime)).1
    rcases slots_place s fd connectTime i.add with ⟨hfree, _⟩ | ⟨hfree, _⟩ | ⟨_, _, hper, hnon⟩
    · -- A free slot is filled only while nothing is pending.
      exact absurd (h.idle (.inl hfree)) hpick
    · exact absurd (h.idle (.inr hfree)) hpick
    · refine ⟨hkeep, hper, hnon, ?_⟩
      rw [hconn]
      refine Kernel.conn_accept_of_ne _ ?_
      rintro rfl
      exact hpick (hsep (h.pick_slot hpick))
  | data fd chunk time endTime =>
    have hmis : ¬Misidentified s fd chunk := fun hmis => hpick (hsep.1 hmis)
    rw [perform, readData, if_neg hmis] at hnext ⊢
    obtain ⟨_, _, _, _, hshape⟩ := countData_shape s fd chunk.length time endTime
    refine ⟨(pick_countData s fd chunk.length time endTime hpick).resolve_right hnext, ?_, ?_, ?_⟩
    · rw [hshape]
    · rw [hshape]
    · rw [hshape]

def Slots.fdOf (slots : Slots) : Side → Fd
  | .one => slots.persistentFd
  | .two => slots.nonPersistentFd

/-- Nothing is pending, or pick names a connection that has been in its slot ever
since pick was set. -/
def Held (x : Run) (n : Nat) : Prop :=
  (x.stateAt n).pick = -1 ∨ ∃ side, ∃ k < n, (x.stateAt k).pick = -1 ∧ ∀ m, k < m → m ≤ n →
    (x.stateAt m).pick = (x.stateAt n).pick ∧
    (x.stateAt m).slots.fdOf side = (x.stateAt n).pick ∧
    (x.stateAt m).kernel.conn (x.stateAt n).pick = (x.stateAt n).kernel.conn (x.stateAt n).pick

theorem held_succ {x : Run} (hsep : x.EachStep Separate) {n : Nat} (hn : n < x.inputs.length)
    (h : Held x n) : Held x (n + 1) := by
  have hstep := x.eachStep_iff.mp hsep n hn
  have hfollows := (follows_run hsep n).1
  have hnext := (follows_run hsep (n + 1)).1
  cases eq_or_ne (x.stateAt (n + 1)).pick (-1) with
  | inl hfree => exact .inl hfree
  | inr hpick' =>
    cases eq_or_ne (x.stateAt n).pick (-1) with
    | inl hfree =>
      -- The step has just set pick.
      have hlast : ∀ m, n < m → m ≤ n + 1 → m = n + 1 := fun m hlo hhi => by omega
      cases hnext.pick_slot hpick' with
      | inl hper =>
        refine .inr ⟨.one, n, Nat.lt_succ_self n, hfree, fun m hlo hhi => ?_⟩
        rw [hlast m hlo hhi]
        exact ⟨rfl, hper.symm, rfl⟩
      | inr hnon =>
        refine .inr ⟨.two, n, Nat.lt_succ_self n, hfree, fun m hlo hhi => ?_⟩
        rw [hlast m hlo hhi]
        exact ⟨rfl, hnon.symm, rfl⟩
    | inr hpick =>
      obtain ⟨side, k, hk, hset, hheld⟩ := h.resolve_left hpick
      have hkept := pick_kept hstep hfollows hpick (by rwa [← x.stateAt_succ hn])
      rw [← x.stateAt_succ hn] at hkept
      obtain ⟨hsame, hper, hnon, hconn⟩ := hkept
      refine .inr ⟨side, k, Nat.lt_succ_of_lt hk, hset, fun m hlo hhi => ?_⟩
      rw [hsame, hconn]
      rcases Nat.lt_or_eq_of_le hhi with hlt | rfl
      · exact hheld m hlo (Nat.le_of_lt_succ hlt)
      · refine ⟨hsame, ?_, hconn⟩
        rw [← (hheld n hk (Nat.le_refl n)).2.1]
        cases side with
        | one => exact hper
        | two => exact hnon

theorem held_always {x : Run} (hsep : x.EachStep Separate) (n : Nat) : Held x n := by
  induction n with
  | zero =>
    obtain ⟨_, _, _, _, _, hstart⟩ := x.begins
    have hzero : x.stateAt 0 = x.start := rfl
    rw [Held, hzero, hstart]
    exact .inl rfl
  | succ n ih =>
    cases Nat.lt_or_ge n x.inputs.length with
    | inl hn => exact held_succ hsep hn ih
    | inr hn =>
      have hsame : x.stateAt (n + 1) = x.stateAt n := by
        rw [x.stateAt_of_length_le hn, x.stateAt_of_length_le (Nat.le_succ_of_le hn)]
      rcases ih with hfree | ⟨side, k, hk, hset, hheld⟩
      · exact .inl (hsame ▸ hfree)
      · refine .inr ⟨side, k, Nat.lt_succ_of_lt hk, hset, fun m hlo hhi => ?_⟩
        rw [hsame]
        rcases Nat.lt_or_eq_of_le hhi with hlt | rfl
        · exact hheld m hlo (Nat.le_of_lt_succ hlt)
        · rw [hsame]
          exact hheld n hk (Nat.le_refl n)

/-! ## Finished connections -/

theorem busy_of_finish {s : State} {i : Input} (hnum : Numbered s) (ha : action s i = .finish) :
    s.slots.nonPersistentFd ≠ -1 := by
  have hcaused := action_caused s i
  rw [ha] at hcaused
  obtain hbusy | ⟨rest, hpend⟩ := hcaused
  · exact hbusy
  · exact ne_sentinel (hnum.pending _ (hpend ▸ List.mem_cons_self))

/-- What a finished connection adds to temp_stats is its measurement. -/
def MeasuredBy (c : Sums) (g : Pairing) : Prop :=
  c.persistentCount = UInt64.ofNat g.oneBeforeTwo ∧
  c.nonPersistentCount = UInt64.ofNat g.twoBeforeOne ∧
  c.totalWhenBothPresent = UInt64.ofNat g.both

theorem Counted.contribution {p : Progress} {g : Pairing} (h : Counted p g) (duration : ℚ) :
    MeasuredBy (contribution p duration) g := by
  obtain ⟨hcount, hcount', hboth⟩ := h
  refine ⟨hcount, hcount', ?_⟩
  change UInt64.ofInt p.both = _
  rw [hboth, ofInt_natCast]

/-- Every finished connection is reported with its own measurement, and what is
pending belongs to the connections in the slots. -/
def Undisturbed (x : Run) : Prop :=
  (∀ n (h : n < x.inputs.length), ∀ c ∈ finished (x.stateAt n) x.inputs[n],
    MeasuredBy c (measured (x.upTo n))) ∧ ∀ n, Held x n

/-- The measurements do not disturb each other in a run in which nothing is
pending whenever a slot changes hands. -/
theorem measurement_undisturbed (x : Run) (hsep : x.EachStep Separate) : Undisturbed x := by
  refine ⟨fun n _ c hc => ?_, held_always hsep⟩
  obtain ⟨hfollows, hnum⟩ := follows_run hsep n
  rw [finished] at hc
  cases ha : action (x.stateAt n) x.inputs[n] with
  | finish =>
    rw [ha] at hc
    rw [List.mem_singleton.mp hc]
    exact (hfollows.counted (busy_of_finish hnum ha)).contribution _
  | quiet | place | data | leave | stray =>
    rw [ha] at hc
    exact absurd hc List.not_mem_nil

def pairedConnection : List Input :=
  [ready [3] 0, accepts 4 true 0, ready [3] 0, accepts 5 true 0, ready [4, 5] 1,
    receives (.data chunkP) true 1, receives (.data chunkN) true 1, ready [5] 2,
    receives .eof true 2]

theorem permitted_pairedConnection : Along step Permitted freshStart pairedConnection := by
  with_unfolding_all decide

def pairedConnectionRun : Run :=
  ⟨freshStart, pairedConnection, initial_freshStart, permitted_pairedConnection⟩

theorem undisturbed_pairedConnection : Undisturbed pairedConnectionRun :=
  measurement_undisturbed pairedConnectionRun
    (by with_unfolding_all decide : Along step Separate freshStart pairedConnection)

/-- The connection on descriptor 5 ends after the persistent one has sent, and a
new connection gets its slot: its first data closes a pair it had no part in. -/
def stalePick : List Input :=
  [ready [3] 0, accepts 4 true 0, ready [3] 0, accepts 5 true 0, ready [4] 1,
    receives (.data chunkP) true 1, ready [5] 2, receives .eof true 2, ready [3] 3,
    accepts 5 true 3, ready [5] 4, receives (.data chunkN) true 4, ready [5] 5,
    receives .eof true 5]

theorem permitted_stalePick : Along step Permitted freshStart stalePick := by
  with_unfolding_all decide

def stalePickRun : Run := ⟨freshStart, stalePick, initial_freshStart, permitted_stalePick⟩

theorem disturbed_stalePick : stalePickRun.EachStep AddObeyed ∧
    (finished (stalePickRun.stateAt 13) (receives .eof true 5)).map Sums.persistentCount = [1] ∧
    measured (stalePickRun.upTo 13) = ⟨some .two, 0, 0, 0⟩ ∧ ¬Undisturbed stalePickRun := by
  have hmeasured : measured (stalePickRun.upTo 13) = ⟨some .two, 0, 0, 0⟩ := by
    with_unfolding_all decide
  have hcounted : (finished (stalePickRun.stateAt 13) (receives .eof true 5)).map
      Sums.persistentCount = [1] := by with_unfolding_all decide
  refine ⟨(by with_unfolding_all decide : Along step AddObeyed freshStart stalePick), hcounted,
    hmeasured, ?_⟩
  rintro ⟨hfolded, _⟩
  have hone : (1 : UInt64) ∈ (finished (stalePickRun.stateAt 13) (receives .eof true 5)).map
      Sums.persistentCount := by
    rw [hcounted]
    exact List.mem_cons_self
  obtain ⟨c, hc, hcount⟩ := List.mem_map.mp hone
  have hzero := (hfolded 13 (by decide) c hc).1
  rw [hcount, hmeasured] at hzero
  exact absurd hzero (by decide)

end ConnectionOrder.ServerEpx3
