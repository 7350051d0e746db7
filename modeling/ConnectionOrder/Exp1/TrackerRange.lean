import ConnectionOrder.Exp1.Segmentation
import ConnectionOrder.Machine

/-!
# The range of the loss tracker

The tracker as it is compiled, where an overflow wraps. It does what the tracker
with bounds does until the first packet number that is INT_MAX.
-/

namespace ConnectionOrder.ServerFinal

open Machine Scan

/-- The tracker without its bounds. -/
structure WrappingTracker where
  expected : Int
  outOfOrder : List Int

namespace WrappingTracker

def track (t : WrappingTracker) (packetSeq : Int) : WrappingTracker :=
  if packetSeq = t.expected then { t with expected := wrap (t.expected + 1) }
  else if packetSeq < t.expected then t
  else
    { expected := wrap (packetSeq + 1)
      outOfOrder := noteMissing t.outOfOrder t.expected (packetSeq - t.expected).toNat }

def step (t : WrappingTracker) (line : List UInt8) : WrappingTracker :=
  match packetSeq line with
  | none => t
  | some n => t.track n

end WrappingTracker

abbrev LineRun :=
  Execution WrappingTracker.step (fun t => t = ⟨1, []⟩) fun _ _ => True

/-- What the tracker's arithmetic has to keep to while it handles a line. -/
structure InRange (t : WrappingTracker) (line : List UInt8) : Prop where
  positive : 1 ≤ t.expected ∧ 1 ≤ (t.step line).expected
  monotone : t.expected ≤ (t.step line).expected
  increment : ∀ p, packetSeq line = some p → p = t.expected → t.expected + 1 ≤ intMax
  jump : ∀ p, packetSeq line = some p → t.expected < p → p + 1 ≤ intMax
  gap : ∀ p, packetSeq line = some p → t.expected < p → 0 ≤ t.expected

def Tracker.wrapping (t : Tracker) : WrappingTracker := ⟨t.expected, t.outOfOrder⟩

/-- No bound is met before the largest int arrives. -/
theorem wrapping_track {t : Tracker} {p : Int} (h : p < intMax) :
    ∃ t', track t p = some t' ∧ t'.wrapping = t.wrapping.track p ∧ t.expected ≤ t'.expected := by
  have hpos := t.positive
  have hsame : t.wrapping.expected = t.expected := rfl
  rw [WrappingTracker.track, hsame]
  cases lt_or_ge p t.expected with
  | inl hold =>
    refine ⟨t, track_of_lt hold, ?_, le_refl _⟩
    rw [if_neg (ne_of_lt hold), if_pos hold]
  | inr hnew =>
    obtain ⟨t', htrack, hexpected, hout⟩ := track_new hnew h
    refine ⟨t', htrack, ?_, by omega⟩
    rw [Tracker.wrapping, hexpected, hout]
    have hsum : wrap (p + 1) = p + 1 := wrap_of_range (by omega) (by omega)
    cases eq_or_lt_of_le hnew with
    | inl heq =>
      rw [if_pos heq.symm, heq, hsum, Int.sub_self]
      rfl
    | inr hlt =>
      rw [if_neg (ne_of_gt hlt), if_neg (not_lt.mpr hlt.le), hsum]
      rfl

theorem wrapping_trackLine {t : Tracker} {line : List UInt8} (h : packetSeq line ≠ some intMax) :
    ∃ t', trackLine t line = some t' ∧ t'.wrapping = t.wrapping.step line ∧
      t.expected ≤ t'.expected := by
  rw [trackLine, WrappingTracker.step]
  cases hline : packetSeq line with
  | none => exact ⟨t, rfl, rfl, le_refl _⟩
  | some p =>
    have hne : p ≠ intMax := fun heq => h (hline.trans (congrArg some heq))
    exact wrapping_track (lt_of_le_of_ne (packetSeq_le hline) hne)

theorem inRange_iff (t : Tracker) (line : List UInt8) :
    InRange t.wrapping line ↔ packetSeq line ≠ some intMax := by
  constructor
  · intro h hline
    have hhigh : t.wrapping.expected ≤ intMax := t.inRange
    cases eq_or_lt_of_le hhigh with
    | inl heq =>
      have hover := h.increment intMax hline heq.symm
      omega
    | inr hlt =>
      have hover := h.jump intMax hline hlt
      omega
  · intro hline
    obtain ⟨t', _, hstep, hmono⟩ := wrapping_trackLine (t := t) hline
    have hbelow : ∀ p, packetSeq line = some p → p + 1 ≤ intMax := by
      intro p hp
      have hne : p ≠ intMax := fun heq => hline (hp.trans (congrArg some heq))
      exact lt_of_le_of_ne (packetSeq_le hp) hne
    have hnext : (t.wrapping.step line).expected = t'.expected := by
      rw [← hstep]
      rfl
    constructor
    · rw [hnext]
      exact ⟨t.positive, t'.positive⟩
    · rw [hnext]
      exact hmono
    · intro p hp heq
      rw [← heq]
      exact hbelow p hp
    · intro p hp _
      exact hbelow p hp
    · intro p _ _
      exact Int.le_of_lt t.positive

/-- The arithmetic stays in range in exactly the runs without a packet number INT_MAX. -/
theorem arithmetic_inRange_iff (x : LineRun) :
    x.EachStep InRange ↔ ∀ line ∈ x.inputs, packetSeq line ≠ some intMax := by
  have hagree : x.EachStep InRange ↔ x.EachStep fun _ line => packetSeq line ≠ some intMax := by
    refine x.eachStep_congr (J := fun t => ∃ checked : Tracker, checked.wrapping = t)
      (fun t ht => ⟨Tracker.start, ht.symm⟩) ?_ ?_
    · rintro _ line _ hline ⟨checked, rfl⟩
      obtain ⟨t', _, hstep, _⟩ := wrapping_trackLine (t := checked) hline
      exact ⟨t', hstep⟩
    · rintro _ line _ ⟨checked, rfl⟩
      exact inRange_iff checked line
  rw [hagree, x.eachStep_iff, List.forall_mem_iff_getElem]

/-- "TCP:1 | PACKET:2147483647" and "TCP:1 | PACKET:5" -/
def largestInt : List (List UInt8) :=
  [[84, 67, 80, 58, 49, 32, 124, 32, 80, 65, 67, 75, 69, 84, 58, 50, 49, 52, 55, 52, 56, 51, 54,
      52, 55],
    [84, 67, 80, 58, 49, 32, 124, 32, 80, 65, 67, 75, 69, 84, 58, 53]]

def largestIntRun : LineRun := ⟨⟨1, []⟩, largestInt, rfl, by simp [largestInt, Along]⟩

/-- The second line's loop starts at the smallest int. -/
theorem wrapped_largestInt : largestIntRun.inputs.map packetSeq = [some intMax, some 5] ∧
    (largestIntRun.stateAt 1).expected = intMin ∧ (largestIntRun.stateAt 2).expected = 6 ∧
    ¬largestIntRun.EachStep InRange := by
  have hseqs : largestIntRun.inputs.map packetSeq = [some intMax, some 5] := by decide
  refine ⟨hseqs, by decide, by decide, fun h => ?_⟩
  have hmono := (largestIntRun.eachStep_iff.mp h 0 (by decide)).monotone
  exact absurd hmono (by decide)

end ConnectionOrder.ServerFinal
