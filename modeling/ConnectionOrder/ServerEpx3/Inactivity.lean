import ConnectionOrder.ServerEpx3.Measurement
import ConnectionOrder.ServerEpx3.Tallies

/-!
# Who is closed for inactivity

The stay of a connection in the non-persistent slot begins when it is accepted into
the slot, promoted from the queue or demoted. The server tests the time since the
connect time instead, so the wait of a promoted connection in the queue is taken off
its ten seconds.
-/

namespace ConnectionOrder.ServerEpx3

open Machine

/-- The stay in the non-persistent slot: whose it is, the connect time noted for it,
when it began, and whether a byte has been received during it. -/
structure Stay where
  number : Nat
  since : Timeval
  entered : Timeval
  heard : Bool
deriving DecidableEq

def Stay.none : Stay := ⟨0, ⟨0, 0⟩, ⟨0, 0⟩, false⟩

/-- What the wait before the stay has left of INACTIVE_TIMEOUT. -/
def Stay.patience (g : Stay) : ℚ := inactiveTimeout - timeDiff g.since g.entered

/-- The clock when the input is handled. -/
def Input.time : Input → Timeval
  | .wait _ currentTime _ _ => currentTime
  | .event answers => answers.time
  | .signal => ⟨0, 0⟩

def Stay.promote (g : Stay) (s : State) (i : Input) : Stay :=
  if h : 0 < s.slots.nonPersistentQueue.count then
    let next := s.slots.nonPersistentQueue.front h
    ⟨s.kernel.conn next.fd, next.connectTime, i.time, false⟩
  else g

def noteStay (g : Stay) (s : State) (i : Input) : Stay :=
  match action s i with
  | .place fd connectTime =>
    if s.slots.persistentFd ≠ -1 ∧ s.slots.nonPersistentFd = -1 then
      ⟨(s.kernel.accept fd).conn fd, connectTime, connectTime, false⟩
    else g
  | .data fd chunk time _ =>
    if Misidentified s fd chunk ∧ s.slots.nonPersistentFd = -1 then
      ⟨s.kernel.conn fd, s.clocks.conn1Start, time, true⟩
    else if fd = s.slots.nonPersistentFd ∧ s.kernel.conn fd = g.number then { g with heard := true }
    else g
  | .finish => g.promote s i
  | .quiet | .leave _ | .stray _ => g

/-- The time at which the server looks at a slot that holds an open descriptor. -/
def looked (s : State) : Input → Option Timeval
  | .wait batch currentTime _ _ =>
    if ¬IdleStop s batch currentTime ∧ s.slots.nonPersistentFd ∈ s.kernel.sockets then
      some currentTime
    else none
  | .event _ | .signal => none

/-- The time at which the inactivity branch closes an open descriptor. -/
def expiry (s : State) (i : Input) : Option Timeval := (looked s i).filter (Inactive s)

/-- The connection that is closed has been in the slot for INACTIVE_TIMEOUT seconds,
in which it has sent nothing. -/
def Justified (g : Stay) (s : State) (i : Input) : Prop :=
  ∀ now ∈ expiry s i, s.kernel.conn s.slots.nonPersistentFd = g.number ∧
    inactiveTimeout ≤ timeDiff g.entered now ∧ g.heard = false

/-- The slot still belongs to the connection that got it, which has not been heard. -/
def Unread (g : Stay) (s : State) : Prop :=
  s.kernel.conn s.slots.nonPersistentFd = g.number ∧ g.heard = false

instance (g : Stay) (s : State) : Decidable (Unread g s) := inferInstanceAs (Decidable (_ ∧ _))

/-- In the part of the ten seconds that the wait before the stay has used up. -/
def UsedUp (g : Stay) (now : Timeval) : Prop :=
  g.patience ≤ timeDiff g.entered now ∧ timeDiff g.entered now < inactiveTimeout

instance (g : Stay) (now : Timeval) : Decidable (UsedUp g now) :=
  inferInstanceAs (Decidable (_ ∧ _))

/-- Until the first read no look at the slot falls into what the wait has used up. After
it, or where the number has a new owner, bytes are counted once the patience is over. -/
def Patient (g : Stay) (s : State) (i : Input) : Prop :=
  ∀ now ∈ looked s i,
    if Unread g s then ¬UsedUp g now
    else g.patience ≤ timeDiff g.entered now → s.progress.nonperBytesRead ≠ 0

instance (g : Stay) (s : State) (i : Input) : Decidable (Justified g s i) := by
  unfold Justified
  infer_instance

instance (g : Stay) (s : State) (i : Input) : Decidable (Patient g s i) := by
  unfold Patient
  infer_instance

/-! ## The stay and the variables of the slot -/

/-- While the slot is taken, the connect time is the one of the stay, and nothing is
counted for a connection that has not been heard. -/
structure Matches (g : Stay) (s : State) : Prop where
  since : g.since = s.slots.nonPersistentConnectTime
  numbered : g.number ≤ s.kernel.accepted
  silent : Unread g s → s.progress.nonperBytesRead = 0

structure Occupied (g : Stay) (s : State) : Prop where
  free : s.slots.nonPersistentFd = -1 → s.progress.nonperBytesRead = 0
  taken : s.slots.nonPersistentFd ≠ -1 → Matches g s

variable {g : Stay} {s : State} {i : Input}

theorem nonperBytes_readData {fd : Fd} {chunk : Chunk bufferSize} (hfd : fd ≠ -1)
    (time endTime : Timeval) :
    (readData s fd chunk time endTime).progress.nonperBytesRead =
      (reassigned s fd chunk).progress.nonperBytesRead +
        if tallied s fd chunk = some .two then UInt64.ofNat chunk.length else 0 := by
  cases htally : tallied s fd chunk with
  | none =>
    rw [readData_none hfd htally, if_neg (by decide), add_zero]
  | some side =>
    cases side with
    | one =>
      obtain ⟨hmis, _, hread⟩ := readData_one htally time endTime
      obtain ⟨_, _, _, _, _, hpair⟩ :=
        pairPersistent_shape (tallyPersistent s chunk.length time endTime)
      rw [hread, hpair, reassigned, if_neg hmis, if_neg (by decide), add_zero]
      rfl
    | two =>
      obtain ⟨_, _, _, _, _, hpair⟩ := pairNonPersistent_shape
        (tallyNonPersistent (reassigned s fd chunk) chunk.length time endTime)
      rw [readData_two hfd htally, hpair, if_pos rfl]
      rfl

theorem slots_readData (s : State) (fd : Fd) (chunk : Chunk bufferSize) (time endTime : Timeval) :
    (readData s fd chunk time endTime).slots = (reassigned s fd chunk).slots ∧
    (readData s fd chunk time endTime).kernel = (reassigned s fd chunk).kernel := by
  obtain ⟨_, _, _, _, hshape⟩ := readData_shape s fd chunk time endTime
  rw [hshape]
  exact ⟨rfl, rfl⟩

/-- The slot, its connect time and its bytes are as before. Its number may have been
given to a new connection. -/
theorem Occupied.kept {s' : State} (h : Occupied g s)
    (hslot : s'.slots.nonPersistentFd = s.slots.nonPersistentFd)
    (htime : s'.slots.nonPersistentConnectTime = s.slots.nonPersistentConnectTime)
    (haccepted : s.kernel.accepted ≤ s'.kernel.accepted)
    (hconn : s'.kernel.conn s.slots.nonPersistentFd = s.kernel.conn s.slots.nonPersistentFd ∨
      s.kernel.accepted < s'.kernel.conn s.slots.nonPersistentFd)
    (hbytes : s'.progress.nonperBytesRead = s.progress.nonperBytesRead) : Occupied g s' := by
  constructor
  · intro hfree
    rw [hbytes]
    exact h.free (hslot ▸ hfree)
  · intro htaken
    have hold := h.taken (hslot ▸ htaken)
    refine ⟨htime ▸ hold.since, hold.numbered.trans haccepted, ?_⟩
    rintro ⟨hnumber, hheard⟩
    rw [hslot] at hnumber
    rw [hbytes]
    rcases hconn with hsame | hnew
    · exact hold.silent ⟨hsame ▸ hnumber, hheard⟩
    · have hle := hold.numbered
      omega

theorem occupied_place {fd : Fd} (connectTime : Timeval) (add : Bool) (h : Occupied g s) :
    Occupied (if s.slots.persistentFd ≠ -1 ∧ s.slots.nonPersistentFd = -1 then
        ⟨(s.kernel.accept fd).conn fd, connectTime, connectTime, false⟩ else g)
      (perform s add (.place fd connectTime)) := by
  obtain ⟨hconn, haccepted⟩ := numbers_perform s add (.place fd connectTime)
  have hgrown : s.kernel.accepted ≤ (perform s add (.place fd connectTime)).kernel.accepted := by
    rw [haccepted]
    exact Nat.le_succ _
  have hother : (perform s add (.place fd connectTime)).kernel.conn s.slots.nonPersistentFd =
        s.kernel.conn s.slots.nonPersistentFd ∨
      s.kernel.accepted <
        (perform s add (.place fd connectTime)).kernel.conn s.slots.nonPersistentFd := by
    rw [hconn]
    rcases eq_or_ne s.slots.nonPersistentFd fd with hreused | hne
    · right
      rw [hreused, Kernel.conn_accept_self]
      exact Nat.lt_succ_self _
    · exact .inl (Kernel.conn_accept_of_ne s.kernel hne)
  have hbytes : (perform s add (.place fd connectTime)).progress.nonperBytesRead =
      s.progress.nonperBytesRead := by
    obtain ⟨_, _, _, _, hshape⟩ := place_shape s add fd connectTime
    rw [hshape]
  cases Decidable.em (s.slots.persistentFd = -1) with
  | inl hper =>
    rw [if_neg fun hslot => hslot.1 hper]
    refine h.kept ?_ ?_ hgrown hother hbytes
    · rw [perform, placeClient, if_pos hper, slots_registerClient]
    · rw [perform, placeClient, if_pos hper, slots_registerClient]
  | inr hper =>
    cases Decidable.em (s.slots.nonPersistentFd = -1) with
    | inl hnon =>
      have hslots : (perform s add (.place fd connectTime)).slots = { s.slots with
          nonPersistentFd := fd
          nonPersistentConnectTime := connectTime } := by
        rw [perform, placeClient, if_neg hper, if_pos hnon, slots_registerClient]
      have hzero : (perform s add (.place fd connectTime)).progress.nonperBytesRead = 0 := by
        rw [hbytes]
        exact h.free hnon
      rw [if_pos ⟨hper, hnon⟩]
      refine ⟨fun _ => hzero, fun _ => ⟨?_, ?_, fun _ => hzero⟩⟩
      · rw [hslots]
      · rw [haccepted]
        exact Nat.le_of_eq (Kernel.conn_accept_self _ _)
    | inr hnon =>
      rw [if_neg fun hslot => hnon hslot.2]
      have hslots : (perform s add (.place fd connectTime)).slots.nonPersistentFd =
            s.slots.nonPersistentFd ∧
          (perform s add (.place fd connectTime)).slots.nonPersistentConnectTime =
            s.slots.nonPersistentConnectTime := by
        rw [perform, placeClient, if_neg hper, if_neg hnon]
        split_ifs <;> exact ⟨rfl, rfl⟩
      exact h.kept hslots.1 hslots.2 hgrown hother hbytes

theorem occupied_finish (add : Bool) (i : Input) (hnumbers : NumbersBounded s) :
    Occupied (g.promote s i) (perform s add .finish) := by
  rw [perform]
  cases Decidable.em (0 < s.slots.nonPersistentQueue.count) with
  | inl hcount =>
    have hsame : 0 < (expireInactive s).slots.nonPersistentQueue.count := hcount
    rw [promoteQueued, dif_pos hsame, Stay.promote, dif_pos hcount]
    cases add with
    | true => exact ⟨fun _ => rfl, fun _ => ⟨rfl, hnumbers _, fun _ => rfl⟩⟩
    | false => exact ⟨fun _ => rfl, fun hbusy => absurd rfl hbusy⟩
  | inr hnone =>
    have hsame : ¬0 < (expireInactive s).slots.nonPersistentQueue.count := hnone
    rw [promoteQueued, dif_neg hsame]
    exact ⟨fun _ => rfl, fun hbusy => absurd rfl hbusy⟩

theorem reassigned_busy {fd : Fd} {chunk : Chunk bufferSize}
    (h : ¬(Misidentified s fd chunk ∧ s.slots.nonPersistentFd = -1)) :
    (reassigned s fd chunk).slots.nonPersistentFd = s.slots.nonPersistentFd ∧
    (reassigned s fd chunk).slots.nonPersistentConnectTime = s.slots.nonPersistentConnectTime ∧
    (reassigned s fd chunk).kernel.conn = s.kernel.conn ∧
    (reassigned s fd chunk).progress.nonperBytesRead = s.progress.nonperBytesRead := by
  rw [reassigned]
  split
  · rename_i hmis
    rw [demote, if_neg fun hfree => h ⟨hmis, hfree⟩]
    split_ifs <;> exact ⟨rfl, rfl, rfl, rfl⟩
  · exact ⟨rfl, rfl, rfl, rfl⟩

theorem tallied_ne_two {fd : Fd} {chunk : Chunk bufferSize}
    (h : ¬(Misidentified s fd chunk ∧ s.slots.nonPersistentFd = -1))
    (hnon : fd ≠ s.slots.nonPersistentFd) : tallied s fd chunk ≠ some .two := by
  rw [tallied]
  split_ifs with hmis hrej hslot hper
  · decide
  · exact absurd (hslot.resolve_right hnon) fun hfree => h ⟨hmis, hfree⟩
  · decide
  · exact fun heq => absurd (Option.some.inj heq) (by decide)
  · decide

section

variable {fd : Fd} {chunk : Chunk bufferSize} (time endTime : Timeval)

/-- A demotion fills the free slot with a connection that has just been heard. -/
theorem occupied_demoted (hfd : fd ≠ -1) (hnumbers : NumbersBounded s)
    (h : Misidentified s fd chunk) (hfree : s.slots.nonPersistentFd = -1) :
    Occupied ⟨s.kernel.conn fd, s.clocks.conn1Start, time, true⟩
      (readData s fd chunk time endTime) := by
  obtain ⟨hslots, hkernel⟩ := slots_readData s fd chunk time endTime
  have hshape : reassigned s fd chunk = demote s fd := if_pos h
  have hslot : (demote s fd).slots.nonPersistentFd = s.slots.persistentFd ∧
      (demote s fd).slots.nonPersistentConnectTime = s.clocks.conn1Start ∧
      (demote s fd).kernel = s.kernel := by
    rw [demote, if_pos hfree]
    exact ⟨rfl, rfl, rfl⟩
  rw [← hshape, ← hslots, ← hkernel] at hslot
  constructor
  · intro hnone
    exact absurd (h.1.trans (hslot.1.symm.trans hnone)) hfd
  · intro _
    refine ⟨hslot.2.1.symm, ?_, fun hunread => absurd hunread.2 Bool.true_eq_false.mp⟩
    rw [hslot.2.2]
    exact hnumbers fd

/-- Into the queue or rejected, a demotion leaves the slot alone. -/
theorem occupied_busy (hfd : fd ≠ -1)
    (hstays : ¬(Misidentified s fd chunk ∧ s.slots.nonPersistentFd = -1)) (h : Occupied g s) :
    Occupied (if fd = s.slots.nonPersistentFd ∧ s.kernel.conn fd = g.number then
        { g with heard := true } else g) (readData s fd chunk time endTime) := by
  obtain ⟨hslots, hkernel⟩ := slots_readData s fd chunk time endTime
  have hbytes : (readData s fd chunk time endTime).progress.nonperBytesRead = _ :=
    nonperBytes_readData hfd time endTime
  obtain ⟨hslot, htime, hconn, hold⟩ := reassigned_busy hstays
  have haccepted : (readData s fd chunk time endTime).kernel.accepted = s.kernel.accepted :=
    (numbers_perform s true (.data fd chunk time endTime)).2
  rw [← hslots] at hslot htime
  rw [← hkernel] at hconn
  cases Decidable.em (fd = s.slots.nonPersistentFd) with
  | inl hnon =>
    have htaken := h.taken (hnon ▸ hfd)
    refine ⟨fun hfree => absurd (hnon.trans (hslot.symm.trans hfree)) hfd, fun _ => ?_⟩
    split
    · -- Its own chunk is read: the connection has been heard.
      exact ⟨htime ▸ htaken.since, haccepted ▸ htaken.numbered,
        fun hunread => absurd hunread.2 Bool.true_eq_false.mp⟩
    · -- The number has another owner by now.
      rename_i hother
      refine ⟨htime ▸ htaken.since, haccepted ▸ htaken.numbered, ?_⟩
      rintro ⟨hnumber, _⟩
      rw [hslot, hconn] at hnumber
      exact absurd ⟨hnon, hnon ▸ hnumber⟩ hother
  | inr hnon =>
    rw [if_neg fun hheard => hnon hheard.1]
    have htally : tallied s fd chunk ≠ some .two := tallied_ne_two hstays hnon
    rw [if_neg htally, add_zero, hold] at hbytes
    exact h.kept hslot htime haccepted.ge (.inl (congrFun hconn _)) hbytes

end

theorem occupied_step (hp : Permitted s i) (hpos : SocketsNonneg s) (hnumbers : NumbersBounded s)
    (h : Occupied g s) : Occupied (noteStay g s i) (step s i) := by
  have hperform : Occupied (noteStay g s i) (perform s i.add (action s i)) := by
    rw [noteStay]
    cases ha : action s i with
    | quiet | leave | stray => exact h.kept rfl rfl (Nat.le_refl _) (.inl rfl) rfl
    | place fd connectTime => exact occupied_place connectTime i.add h
    | data fd chunk time endTime =>
      have hfd := ne_sentinel_of_open hpos (permitted_data hp ha)
      dsimp only
      split
      · rename_i hdemoted
        exact occupied_demoted time endTime hfd hnumbers hdemoted.1 hdemoted.2
      · rename_i hstays
        exact occupied_busy time endTime hfd hstays h
    | finish => exact occupied_finish i.add i hnumbers
  obtain ⟨_, _, _, halike⟩ := step_alike s i
  rw [halike]
  exact hperform.kept rfl rfl (Nat.le_refl _) (.inl rfl) rfl

theorem patience_le_iff (g : Stay) (now : Timeval) :
    g.patience ≤ timeDiff g.entered now ↔ inactiveTimeout ≤ timeDiff g.since now := by
  rw [Stay.patience, ← timeDiff_add g.since g.entered now, sub_le_iff_le_add']

theorem taken_of_looked (hpos : SocketsNonneg s) {now : Timeval} (h : now ∈ looked s i) :
    s.slots.nonPersistentFd ≠ -1 := by
  cases i with
  | event answers => cases h
  | signal => cases h
  | wait batch currentTime eventTime add =>
    rw [looked, Option.mem_ite_none_right] at h
    exact ne_sentinel_of_open hpos h.1.2

/-- The server closes an open slot when its patience has run out and nothing is counted. -/
theorem mem_expiry_iff (h : Occupied g s) (hpos : SocketsNonneg s) {now : Timeval} :
    now ∈ expiry s i ↔ now ∈ looked s i ∧ g.patience ≤ timeDiff g.entered now ∧
      s.progress.nonperBytesRead = 0 := by
  rw [expiry, Option.mem_filter_iff, decide_eq_true_iff, patience_le_iff]
  refine and_congr_right fun hlooked => ?_
  have htaken := taken_of_looked hpos hlooked
  rw [Inactive, (h.taken htaken).since]
  exact and_iff_right htaken

theorem justified_iff (h : Occupied g s) (hpos : SocketsNonneg s) :
    Justified g s i ↔ Patient g s i := by
  constructor
  · intro hjust now hlooked
    split
    · rename_i hunread
      rintro ⟨hlate, hshort⟩
      have hzero := (h.taken (taken_of_looked hpos hlooked)).silent hunread
      have hclosed := hjust now ((mem_expiry_iff h hpos).mpr ⟨hlooked, hlate, hzero⟩)
      exact not_le.mpr hshort hclosed.2.1
    · rename_i hread
      intro hlate hzero
      have hclosed := hjust now ((mem_expiry_iff h hpos).mpr ⟨hlooked, hlate, hzero⟩)
      exact hread ⟨hclosed.1, hclosed.2.2⟩
  · intro hpatient now hexpiry
    obtain ⟨hlooked, hlate, hzero⟩ := (mem_expiry_iff h hpos).mp hexpiry
    have hwait := hpatient now hlooked
    split at hwait
    · rename_i hunread
      exact ⟨hunread.1, not_lt.mp fun hshort => hwait ⟨hlate, hshort⟩, hunread.2⟩
    · exact absurd hzero (hwait hlate)

/-- Every connection closed for inactivity has stayed silent in the slot for
INACTIVE_TIMEOUT seconds exactly when the server is patient at every look at the slot. -/
theorem inactivity_close_iff (x : Run) :
    ((x.withHistory noteStay Stay.none).EachStep fun p i => Justified p.1 p.2 i) ↔
      (x.withHistory noteStay Stay.none).EachStep fun p i => Patient p.1 p.2 i := by
  have hstart : Occupied Stay.none x.start := by
    obtain ⟨_, _, _, _, _, hstart⟩ := x.begins
    rw [hstart]
    exact ⟨fun _ => rfl, fun hbusy => absurd rfl hbusy⟩
  rw [Execution.eachStep_iff, Execution.eachStep_iff]
  refine forall_congr' fun n => forall_congr' fun _ => ?_
  rw [Execution.withHistory_stateAt]
  have hall := x.track_invariant (f := noteStay) (b := Stay.none) (R := fun _ _ => True)
    (Q := fun g s => SocketsNonneg s ∧ NumbersBounded s ∧ Occupied g s)
    ⟨socketsNonneg_start x.begins, numbersBounded_start x.begins, hstart⟩
    (fun g s i hp _ h => ⟨socketsNonneg_step hp h.1, numbersBounded_step i h.2.1,
      occupied_step hp h.1 h.2.1 h.2.2⟩) (x.eachStep_iff.mpr fun _ _ => trivial) n
  exact justified_iff hall.2.2 hall.1

/-- A client that waits for 100 seconds is closed at once when it has been promoted. -/
def longQueue : List Input :=
  [ready [3] 0, accepts 4 true 0, ready [3] 0, accepts 5 true 0, ready [3] 0, accepts 6 true 0,
    ready [5] 1, receives (.data chunkN) true 1, ready [5] 100, receives .eof true 100,
    ready [] 100]

theorem permitted_longQueue : Along step Permitted freshStart longQueue := by
  with_unfolding_all decide

def longQueueRun : Run := ⟨freshStart, longQueue, initial_freshStart, permitted_longQueue⟩

theorem closed_at_once_longQueue : longQueueRun.EachStep AddObeyed ∧
    (longQueueRun.upTo 10).tracked noteStay Stay.none = ⟨3, instant 0, instant 100, false⟩ ∧
    expiry (longQueueRun.stateAt 10) (ready [] 100) = some (instant 100) ∧
    ¬(longQueueRun.withHistory noteStay Stay.none).EachStep fun p i => Justified p.1 p.2 i := by
  refine ⟨(by with_unfolding_all decide : Along step AddObeyed freshStart longQueue),
    by with_unfolding_all decide, by with_unfolding_all decide, ?_⟩
  exact (by with_unfolding_all decide : ¬Along (withHistory step noteStay)
    (fun p i => Justified p.1 p.2 i) (Stay.none, freshStart) longQueue)

end ConnectionOrder.ServerEpx3
