import ConnectionOrder.Links
import ConnectionOrder.ServerEpx3.Runs

/-!
# Bytes and packets, and who is in the persistent slot

The byte counters and the packet counters take the same course with different weights. A
demotion adds what the persistent slot has kept to the non-persistent total, once: so that
total is bounded by what was received, although the two together are not.
-/

namespace ConnectionOrder.ServerEpx3

open Machine Links

inductive Measure where
  | bytes
  | packets

def Measure.weight : Measure → Nat → Nat
  | .bytes, n => n
  | .packets, n => n / packetSize

theorem Measure.superadditive (u : Measure) : Superadditive u.weight := by
  intro m n
  cases u with
  | bytes => exact Nat.le_refl _
  | packets => exact Nat.div_add_div_le_add_div

/-- The two totals, and what is counted for the connection in the persistent slot. -/
structure Meter where
  per : UInt64
  non : UInt64
  kept : UInt64

def meter : Measure → State → Meter
  | .bytes, s => ⟨s.totals.allPerBytes, s.totals.allNonperBytes, s.progress.perBytesRead⟩
  | .packets, s => ⟨s.totals.allPerpackets, s.totals.allNonpacktes, s.progress.perPackets⟩

namespace Meter

def persistent (m : Meter) (n : Nat) : Meter :=
  ⟨m.per + UInt64.ofNat n, m.non, m.kept + UInt64.ofNat n⟩

def nonPersistent (m : Meter) (n : Nat) : Meter := { m with non := m.non + UInt64.ofNat n }

def move (m : Meter) : Meter := ⟨m.per, m.non + m.kept, 0⟩

def reset (m : Meter) : Meter := { m with kept := 0 }

/-- The persistent total stays within `own`. What is kept may still be added to the other
total, and both stay within `all`. -/
def Within (m : Meter) (own all : Nat) : Prop :=
  ∃ per non kept, m = ⟨UInt64.ofNat per, UInt64.ofNat non, UInt64.ofNat kept⟩ ∧
    per ≤ own ∧ non + kept ≤ all

section Within

variable {m : Meter} {own all : Nat}

theorem Within.mono (h : m.Within own all) {own' all' : Nat} (hown : own ≤ own')
    (hall : all ≤ all') : m.Within own' all' := by
  obtain ⟨per, non, kept, hm, hle, hle'⟩ := h
  exact ⟨per, non, kept, hm, hle.trans hown, hle'.trans hall⟩

theorem Within.persistent (h : m.Within own all) (n : Nat) :
    (m.persistent n).Within (own + n) (all + n) := by
  obtain ⟨per, non, kept, rfl, hle, hle'⟩ := h
  refine ⟨per + n, non, kept + n, ?_, by omega, by omega⟩
  rw [Meter.persistent, UInt64.ofNat_add, UInt64.ofNat_add]

theorem Within.nonPersistent (h : m.Within own all) (n : Nat) :
    (m.nonPersistent n).Within own (all + n) := by
  obtain ⟨per, non, kept, rfl, hle, hle'⟩ := h
  refine ⟨per, non + n, kept, ?_, hle, by omega⟩
  rw [Meter.nonPersistent, UInt64.ofNat_add]

theorem Within.move (h : m.Within own all) : m.move.Within own all := by
  obtain ⟨per, non, kept, rfl, hle, hle'⟩ := h
  refine ⟨per, non + kept, 0, ?_, hle, hle'⟩
  rw [Meter.move, UInt64.ofNat_add]
  rfl

theorem Within.reset (h : m.Within own all) : m.reset.Within own all := by
  obtain ⟨per, non, kept, rfl, hle, hle'⟩ := h
  exact ⟨per, non, 0, rfl, hle, by omega⟩

theorem toNat_ofNat_le (n : Nat) : (UInt64.ofNat n).toNat ≤ n := by
  rw [UInt64.toNat_ofNat']
  exact Nat.mod_le _ _

theorem Within.per_le (h : m.Within own all) : m.per.toNat ≤ own := by
  obtain ⟨per, non, kept, rfl, hle, _⟩ := h
  exact (toNat_ofNat_le per).trans hle

theorem Within.non_le (h : m.Within own all) : m.non.toNat ≤ all := by
  obtain ⟨per, non, kept, rfl, _, hle⟩ := h
  exact (toNat_ofNat_le non).trans (by omega)

end Within

end Meter

/-! ## What a step does to the totals -/

theorem meter_countData (u : Measure) (s : State) (fd : Fd) (n : Nat) (time endTime : Timeval) :
    meter u (countData s fd n time endTime) =
      if fd = s.slots.persistentFd then (meter u s).persistent (u.weight n)
      else if fd = s.slots.nonPersistentFd then (meter u s).nonPersistent (u.weight n)
      else meter u s := by
  rw [countData]
  split_ifs
  · obtain ⟨_, _, _, _, _, hpair⟩ := pairPersistent_shape (tallyPersistent s n time endTime)
    rw [hpair]
    cases u <;> rfl
  · obtain ⟨_, _, _, _, _, hpair⟩ := pairNonPersistent_shape (tallyNonPersistent s n time endTime)
    rw [hpair]
    cases u <;> rfl
  · rfl

theorem meter_demote (u : Measure) (s : State) (fd : Fd) :
    meter u (demote s fd) = if DemotionRejected s then meter u s else (meter u s).move := by
  rw [demote]
  cases eq_or_ne s.slots.nonPersistentFd (-1) with
  | inl hfree =>
    rw [if_pos hfree, if_neg fun h => h.1 hfree]
    cases u <;> rfl
  | inr hbusy =>
    rw [if_neg hbusy]
    split_ifs with hroom hrejected hrejected
    · exact absurd hroom hrejected.2
    · cases u <;> rfl
    · cases u <;> rfl
    · exact absurd ⟨hbusy, hroom⟩ hrejected

theorem persistentFd_demote (s : State) (fd : Fd) : (demote s fd).slots.persistentFd = -1 := by
  rw [demote]
  split_ifs <;> rfl

/-- The chunk that recv returns, and the descriptor it is read from. -/
def delivered (s : State) (i : Input) : Option (Fd × Chunk bufferSize) :=
  match action s i with
  | .data fd chunk _ _ => some (fd, chunk)
  | .quiet | .place .. | .leave _ | .finish | .stray _ => none

theorem action_of_delivered {s : State} {i : Input} {fd : Fd} {chunk : Chunk bufferSize}
    (h : delivered s i = some (fd, chunk)) :
    ∃ time endTime, action s i = .data fd chunk time endTime := by
  rw [delivered] at h
  cases ha : action s i with
  | data fd' chunk' time endTime =>
    rw [ha] at h
    cases h
    exact ⟨time, endTime, rfl⟩
  | quiet | place | leave | finish | stray =>
    rw [ha] at h
    cases h

section Step

variable {u : Measure} {s : State} {own all : Nat}

/-- What a chunk may add to the persistent total. -/
def identified (u : Measure) (chunk : Chunk bufferSize) : Nat :=
  if chunk.head = persistentByte then u.weight chunk.length else 0

theorem within_readData (h : (meter u s).Within own all) {fd : Fd} (hfd : fd ≠ -1)
    (chunk : Chunk bufferSize) (time endTime : Timeval) :
    (meter u (readData s fd chunk time endTime)).Within (own + identified u chunk)
      (all + u.weight chunk.length) := by
  have hmore := Nat.le_add_right all (u.weight chunk.length)
  have hmore' := Nat.le_add_right own (identified u chunk)
  rw [readData]
  split_ifs with hmis hrejected
  · rw [meter_demote, if_pos hrejected]
    exact h.mono hmore' hmore
  · have hmoved : (meter u (demote s fd)).Within own all := by
      rw [meter_demote, if_neg hrejected]
      exact h.move
    rw [meter_countData, persistentFd_demote, if_neg hfd]
    split_ifs
    · exact (hmoved.nonPersistent _).mono hmore' (Nat.le_refl _)
    · exact hmoved.mono hmore' hmore
  · rw [meter_countData]
    split_ifs with hper
    · have hhead : chunk.head = persistentByte := not_not.mp fun hhead => hmis ⟨hper, hhead⟩
      rw [identified, if_pos hhead]
      exact h.persistent _
    · exact (h.nonPersistent _).mono hmore' (Nat.le_refl _)
    · exact h.mono hmore' hmore

theorem meter_alike {s' : State} (h : Alike s s') : meter u s' = meter u s := by
  obtain ⟨_, _, _, rfl⟩ := h
  cases u <;> rfl

theorem within_delivered {i : Input} (hp : Permitted s i) (hsockets : SocketsNonneg s)
    (h : (meter u s).Within own all) {fd : Fd} {chunk : Chunk bufferSize}
    (hdelivered : delivered s i = some (fd, chunk)) :
    (meter u (step s i)).Within (own + identified u chunk) (all + u.weight chunk.length) := by
  obtain ⟨time, endTime, ha⟩ := action_of_delivered hdelivered
  have hfd := ne_sentinel_of_open hsockets (permitted_data hp ha)
  rw [meter_alike (step_alike s i), ha]
  exact within_readData h hfd chunk time endTime

theorem within_silent {i : Input} (h : (meter u s).Within own all)
    (hdelivered : delivered s i = none) : (meter u (step s i)).Within own all := by
  rw [meter_alike (step_alike s i)]
  rw [delivered] at hdelivered
  cases ha : action s i with
  | quiet | leave | stray =>
    cases u <;> exact h
  | place fd connectTime =>
    obtain ⟨_, _, _, _, hshape⟩ := place_shape s i.add fd connectTime
    rw [hshape]
    cases u <;> exact h
  | data =>
    rw [ha] at hdelivered
    cases hdelivered
  | finish =>
    obtain ⟨_, _, _, _, _, hshape⟩ := promoteQueued_shape (expireInactive s) i.add
    rw [perform, hshape]
    have hreset := h.reset
    cases u <;> exact hreset

end Step

/-! ## The persistent slot -/

theorem persistentFd_alike {s s' : State} (h : Alike s s') :
    s'.slots.persistentFd = s.slots.persistentFd := by
  obtain ⟨_, _, _, rfl⟩ := h
  rfl

/-- A client that is read stays in the persistent slot only if its chunk begins with P. -/
theorem persistentFd_delivered {s : State} {i : Input} {fd : Fd} {chunk : Chunk bufferSize}
    (hdelivered : delivered s i = some (fd, chunk)) :
    (step s i).slots.persistentFd = -1 ∨
    ((step s i).slots.persistentFd = s.slots.persistentFd ∧
      (fd = s.slots.persistentFd → chunk.head = persistentByte)) := by
  have hcount : ∀ s n time endTime,
      (countData s fd n time endTime).slots.persistentFd = s.slots.persistentFd := by
    intro s n time endTime
    obtain ⟨_, _, _, _, hshape⟩ := countData_shape s fd n time endTime
    rw [hshape]
  obtain ⟨time, endTime, ha⟩ := action_of_delivered hdelivered
  rw [persistentFd_alike (step_alike s i), ha, perform, readData]
  split_ifs with hmis hrejected
  · exact .inl (persistentFd_demote s fd)
  · exact .inl ((hcount _ _ _ _).trans (persistentFd_demote s fd))
  · exact .inr ⟨hcount _ _ _ _, fun hfd => not_not.mp fun hhead => hmis ⟨hfd, hhead⟩⟩

/-- Otherwise the slot is left, or kept, or given to the client that is accepted. -/
theorem persistentFd_silent {s : State} {i : Input} (hdelivered : delivered s i = none) :
    (step s i).slots.persistentFd = -1 ∨
    (step s i).slots.persistentFd = s.slots.persistentFd ∨
    ∃ connectTime, action s i = .place (step s i).slots.persistentFd connectTime := by
  rw [persistentFd_alike (step_alike s i)]
  rw [delivered] at hdelivered
  cases ha : action s i with
  | quiet | stray => exact .inr (.inl rfl)
  | leave => exact .inl rfl
  | place fd connectTime =>
    rw [perform, placeClient]
    split_ifs
    · rw [slots_registerClient]
      exact .inr (.inr ⟨connectTime, rfl⟩)
    · rw [slots_registerClient]
      exact .inr (.inl rfl)
    · exact .inr (.inl rfl)
    · exact .inr (.inl rfl)
  | data =>
    rw [ha] at hdelivered
    cases hdelivered
  | finish =>
    rw [perform, promoteQueued]
    split_ifs <;> exact .inr (.inl rfl)

/-! ## Numbers -/

/-- No connection number stands for two descriptors. -/
def Distinct (s : State) : Prop :=
  ∀ fd fd', s.kernel.conn fd = s.kernel.conn fd' → s.kernel.conn fd ≠ 0 → fd = fd'

theorem distinct_start {s : State} (h : Initial s) : Distinct s := by
  obtain ⟨_, _, _, _, _, rfl⟩ := h
  exact fun fd fd' _ hne => absurd rfl hne

theorem kernel_alike {s s' : State} (h : Alike s s') : s'.kernel = s.kernel := by
  obtain ⟨_, _, _, rfl⟩ := h
  rfl

/-- A step gives out at most the next number, to the client it accepts. -/
theorem numbers_step (s : State) (i : Input) :
    ((step s i).kernel.conn = s.kernel.conn ∧ (step s i).kernel.accepted = s.kernel.accepted ∧
      ∀ fd connectTime, action s i ≠ .place fd connectTime) ∨
    ∃ fd connectTime, action s i = .place fd connectTime ∧
      (step s i).kernel.conn = Function.update s.kernel.conn fd (s.kernel.accepted + 1) ∧
      (step s i).kernel.accepted = s.kernel.accepted + 1 := by
  obtain ⟨hconn, haccepted⟩ := numbers_perform s i.add (action s i)
  rw [kernel_alike (step_alike s i), hconn, haccepted]
  cases action s i with
  | place fd connectTime => exact .inr ⟨fd, connectTime, rfl, rfl, rfl⟩
  | quiet | data | leave | finish | stray => exact .inl ⟨rfl, rfl, nofun⟩

theorem distinct_step {s : State} (i : Input) (hbounded : NumbersBounded s) (h : Distinct s) :
    Distinct (step s i) := by
  rcases numbers_step s i with ⟨hconn, _⟩ | ⟨client, _, _, hconn, _⟩
  · intro fd fd'
    rw [hconn]
    exact h fd fd'
  · intro fd fd'
    rw [hconn, Function.update_apply, Function.update_apply]
    have hfd := hbounded fd
    have hfd' := hbounded fd'
    split_ifs with heq heq' heq'
    · exact fun _ _ => heq.trans heq'.symm
    · intro hsame _
      omega
    · intro hsame _
      omega
    · exact h fd fd'

end ConnectionOrder.ServerEpx3
