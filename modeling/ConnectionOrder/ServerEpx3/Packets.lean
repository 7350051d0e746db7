import ConnectionOrder.Quotients
import ConnectionOrder.ServerEpx3.ByteTotals

/-!
# Packets counted chunk by chunk

A packet counter adds the quotient of each chunk. The lengths of the chunks behind
per_bytes_read and nonper_bytes_read follow the connection: a demotion takes them
over to the other slot or drops them, and finishing drops both.
-/

namespace ConnectionOrder.ServerEpx3

open Machine Quotients

structure Lengths where
  per : List Nat
  non : List Nat

namespace Lengths

def none : Lengths := ⟨[], []⟩

def demote (g : Lengths) (s : State) : Lengths :=
  if s.slots.nonPersistentFd = -1 then ⟨[], g.per⟩
  else if s.slots.nonPersistentQueue.count < maxNonPersistent then ⟨[], g.non⟩
  else g

def count (g : Lengths) (slots : Slots) (fd : Fd) (n : Nat) : Lengths :=
  if fd = slots.persistentFd then { g with per := g.per ++ [n] }
  else if fd = slots.nonPersistentFd then { g with non := g.non ++ [n] }
  else g

def note (g : Lengths) (s : State) (i : Input) : Lengths :=
  match action s i with
  | .data fd chunk _ _ =>
    if Misidentified s fd chunk then
      if DemotionRejected s then g.demote s
      else (g.demote s).count (ServerEpx3.demote s fd).slots fd chunk.length
    else g.count s.slots fd chunk.length
  | .finish => none
  | .quiet | .place .. | .leave _ | .stray _ => g

end Lengths

/-- The byte counter and the packet counter behind one list of lengths. -/
def Tallied (bytes packets : UInt64) (lengths : List Nat) : Prop :=
  bytes = UInt64.ofNat lengths.sum ∧ packets = UInt64.ofNat (whole packetSize lengths)

theorem tallied_nil : Tallied 0 0 [] := ⟨rfl, rfl⟩

theorem Tallied.append {bytes packets : UInt64} {lengths : List Nat}
    (h : Tallied bytes packets lengths) (n : Nat) :
    Tallied (bytes + UInt64.ofNat n) (packets + UInt64.ofNat (n / packetSize))
      (lengths ++ [n]) := by
  obtain ⟨hbytes, hpackets⟩ := h
  constructor
  · rw [hbytes, List.sum_append, List.sum_singleton, UInt64.ofNat_add]
  · rw [hpackets, whole_append, UInt64.ofNat_add]
    rfl

structure Follow (g : Lengths) (p : Progress) : Prop where
  per : Tallied p.perBytesRead p.perPackets g.per
  non : Tallied p.nonperBytesRead p.nonperPackets g.non

theorem follow_countData {g : Lengths} {s : State} (h : Follow g s.progress) (fd : Fd) (n : Nat)
    (time endTime : Timeval) :
    Follow (g.count s.slots fd n) (countData s fd n time endTime).progress := by
  rw [countData, Lengths.count]
  split
  · obtain ⟨_, _, _, _, _, hpair⟩ := pairPersistent_shape (tallyPersistent s n time endTime)
    rw [hpair]
    exact ⟨h.per.append n, h.non⟩
  · split
    · obtain ⟨_, _, _, _, _, hpair⟩ :=
        pairNonPersistent_shape (tallyNonPersistent s n time endTime)
      rw [hpair]
      exact ⟨h.per, h.non.append n⟩
    · exact h

theorem follow_demote {g : Lengths} {s : State} (h : Follow g s.progress) (fd : Fd) :
    Follow (g.demote s) (demote s fd).progress := by
  rw [demote, Lengths.demote]
  split
  · exact ⟨tallied_nil, h.per⟩
  · split
    · exact ⟨tallied_nil, h.non⟩
    · exact h

theorem follow_step {g : Lengths} {s : State} (i : Input) (h : Follow g s.progress) :
    Follow (g.note s i) (step s i).progress := by
  obtain ⟨_, _, _, halike⟩ := step_alike s i
  rw [halike, Lengths.note]
  cases action s i with
  | quiet | leave | stray => exact h
  | place fd connectTime =>
    obtain ⟨_, _, _, _, hshape⟩ := place_shape s i.add fd connectTime
    rw [hshape]
    exact h
  | finish =>
    obtain hzero : Follow Lengths.none (expireInactive s).progress := ⟨tallied_nil, tallied_nil⟩
    change Follow Lengths.none (promoteQueued (expireInactive s) i.add).progress
    rw [promoteQueued]
    split
    · cases i.add with
      | false | true => exact ⟨hzero.per, tallied_nil⟩
    · exact hzero
  | data fd chunk time endTime =>
    change Follow _ (readData s fd chunk time endTime).progress
    dsimp only
    rw [readData]
    split
    · split
      · exact follow_demote h fd
      · exact follow_countData (follow_demote h fd) fd chunk.length time endTime
    · exact follow_countData h fd chunk.length time endTime

/-- The lengths of the chunks counted for the non-persistent connection after n steps. -/
def countedLengths (x : Run) (n : Nat) : List Nat :=
  ((x.upTo n).tracked Lengths.note Lengths.none).non

theorem tallied_nonper (x : Run) (n : Nat) :
    Tallied (x.stateAt n).progress.nonperBytesRead (x.stateAt n).progress.nonperPackets
      (countedLengths x n) := by
  have hfollow := x.track_invariant (f := Lengths.note) (b := Lengths.none)
    (Q := fun g s => Follow g s.progress) (R := fun _ _ => True) ?_
    (fun _ _ i _ _ h => follow_step i h) (x.eachStep_iff.mpr fun _ _ => trivial) n
  · exact hfollow.non
  · obtain ⟨_, _, _, _, _, hstart⟩ := x.begins
    rw [hstart]
    exact ⟨tallied_nil, tallied_nil⟩

theorem nonper_packets_iff (x : Run) (n : Nat) :
    (x.stateAt n).progress.nonperPackets =
        (x.stateAt n).progress.nonperBytesRead / UInt64.ofNat packetSize ↔
      Aligned (2 ^ 64) packetSize (countedLengths x n) := by
  obtain ⟨hbytes, hpackets⟩ := tallied_nonper x n
  rw [hbytes, hpackets]
  exact counted_eq_iff (by decide) (by decide) _

theorem nonper_packets_congr (x y : Run) {n m : Nat}
    (h : (countedLengths x n).sum = (countedLengths y m).sum) :
    (x.stateAt n).progress.nonperPackets = (y.stateAt m).progress.nonperPackets ↔
      excess packetSize (countedLengths x n) ≡ excess packetSize (countedLengths y m)
        [MOD packetSize * 2 ^ 64] := by
  rw [(tallied_nonper x n).2, (tallied_nonper y m).2]
  exact counted_congr_iff (by decide) h

end ConnectionOrder.ServerEpx3
