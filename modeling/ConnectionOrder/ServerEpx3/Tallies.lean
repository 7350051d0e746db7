import ConnectionOrder.Pairing
import ConnectionOrder.ServerEpx3.ByteTotals

/-!
# The slot a chunk is counted for

A misidentified connection is demoted before its chunk meets the slots. What
readData does is then one of three things: nothing more, an event of the persistent
slot, or an event of the other one.
-/

namespace ConnectionOrder.ServerEpx3

open Machine

/-- The slot whose counters a chunk goes to. -/
def tallied (s : State) (fd : Fd) (chunk : Chunk bufferSize) : Option Side :=
  if Misidentified s fd chunk then
    if DemotionRejected s then none
    else if s.slots.nonPersistentFd = -1 ∨ fd = s.slots.nonPersistentFd then some .two
    else none
  else if fd = s.slots.persistentFd then some .one
  else if fd = s.slots.nonPersistentFd then some .two
  else none

/-- The state in which the chunk is counted. -/
def reassigned (s : State) (fd : Fd) (chunk : Chunk bufferSize) : State :=
  if Misidentified s fd chunk then demote s fd else s

variable {s : State} {fd : Fd} {chunk : Chunk bufferSize}

theorem slots_demote (hrej : ¬DemotionRejected s) :
    (demote s fd).slots.persistentFd = -1 ∧ (demote s fd).slots.nonPersistentFd =
      if s.slots.nonPersistentFd = -1 then s.slots.persistentFd else s.slots.nonPersistentFd := by
  rw [demote]
  split
  · exact ⟨rfl, rfl⟩
  · rename_i hbusy
    rw [dif_pos (not_not.mp fun hfull => hrej ⟨hbusy, hfull⟩)]
    exact ⟨rfl, rfl⟩

theorem readData_one (h : tallied s fd chunk = some .one) (time endTime : Timeval) :
    ¬Misidentified s fd chunk ∧ fd = s.slots.persistentFd ∧
    readData s fd chunk time endTime =
      pairPersistent (tallyPersistent s chunk.length time endTime) := by
  rw [tallied] at h
  split_ifs at h with hmis hrej hslot hper
  · cases h
  · exact ⟨hmis, hper, by rw [readData, if_neg hmis, countData, if_pos hper]⟩
  · cases h

theorem readData_two (hfd : fd ≠ -1) (h : tallied s fd chunk = some .two)
    (time endTime : Timeval) :
    readData s fd chunk time endTime = pairNonPersistent
      (tallyNonPersistent (reassigned s fd chunk) chunk.length time endTime) := by
  rw [tallied] at h
  rw [readData, reassigned]
  split_ifs at h with hmis hrej hslot hper hnon
  · obtain ⟨hper, hnon⟩ := @slots_demote s fd hrej
    rw [if_pos hmis, if_neg hrej, if_pos hmis, countData, hper, if_neg hfd, hnon, if_pos]
    split
    · exact hmis.1
    · rename_i hbusy
      exact hslot.resolve_left hbusy
  · cases h
  · rw [if_neg hmis, if_neg hmis, countData, if_neg hper, if_pos hnon]

theorem readData_none (hfd : fd ≠ -1) (h : tallied s fd chunk = none) (time endTime : Timeval) :
    readData s fd chunk time endTime = reassigned s fd chunk := by
  rw [tallied] at h
  rw [readData, reassigned]
  split_ifs at h with hmis hrej hslot hper hnon
  · rw [if_pos hmis, if_pos hrej, if_pos hmis]
  · obtain ⟨hper, hnon⟩ := @slots_demote s fd hrej
    rw [not_or] at hslot
    rw [if_neg hslot.1] at hnon
    rw [if_pos hmis, if_neg hrej, if_pos hmis, countData, hper, if_neg hfd, hnon, if_neg hslot.2]
  · rw [if_neg hmis, if_neg hmis, countData, if_neg hper, if_neg hnon]

theorem clocks_reassigned (s : State) (fd : Fd) (chunk : Chunk bufferSize) :
    (reassigned s fd chunk).clocks =
      { s.clocks with conn1Started :=
        if Misidentified s fd chunk then false else s.clocks.conn1Started } := by
  rw [reassigned, demote]
  split_ifs <;> rfl

end ConnectionOrder.ServerEpx3
