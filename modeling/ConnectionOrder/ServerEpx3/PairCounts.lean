import ConnectionOrder.ServerEpx3.Measurement

/-!
# Pairs while both slots are occupied

As long as the same two connections hold the slots, pick stands for the side that
is pending and the counters follow the pairing of the two slots.
-/

namespace ConnectionOrder.ServerEpx3

open Machine

/-- No slot changes hands. -/
def Steady (s : State) (i : Input) : Prop :=
  match action s i with
  | .data fd chunk _ _ => ¬Misidentified s fd chunk
  | .leave _ | .finish => False
  | .quiet | .place .. | .stray _ => True

instance (s : State) (i : Input) : Decidable (Steady s i) := by
  unfold Steady
  match action s i with
  | .data .. => infer_instance
  | .quiet | .place .. | .leave _ | .finish | .stray _ => infer_instance

def heard (s : State) (i : Input) : List Side :=
  match action s i with
  | .data fd _ _ _ =>
    if fd = s.slots.persistentFd then [.one]
    else if fd = s.slots.nonPersistentFd then [.two]
    else []
  | .quiet | .place .. | .leave _ | .finish | .stray _ => []

/-- The slots hold `per` and `non`, and the pair counters have moved from `base` by
what the pairing has counted. -/
structure Paired (per non : Fd) (base : Progress) (g : Pairing) (s : State) : Prop where
  slotPer : s.slots.persistentFd = per
  slotNon : s.slots.nonPersistentFd = non
  pick : s.pick = Pairing.pickOf per non g.pending
  one : s.progress.persistentCount = base.persistentCount + UInt64.ofNat g.oneBeforeTwo
  two : s.progress.nonPersistentCount = base.nonPersistentCount + UInt64.ofNat g.twoBeforeOne
  both : s.progress.both = base.both + g.both

variable {per non : Fd} {base : Progress} {g : Pairing} {s : State}

theorem Paired.pairPersistent (h : Paired per non base g s) (hper : per ≠ -1) (hnon : non ≠ -1)
    (hne : per ≠ non) : Paired per non base (g.observe .one) (pairPersistent s) := by
  obtain ⟨rfl, rfl, hpick, hone, htwo, hboth⟩ := h
  obtain ⟨pending, one, two, both⟩ := g
  rw [ServerEpx3.pairPersistent, if_pos ⟨hper, hnon⟩, hpick]
  cases pending with
  | none => exact ⟨rfl, rfl, rfl, hone, htwo, hboth⟩
  | some side =>
    cases side with
    | one =>
      rw [Pairing.pickOf, if_neg hper, if_neg hne]
      exact ⟨rfl, rfl, hpick, hone, htwo, hboth⟩
    | two =>
      rw [Pairing.pickOf, if_neg hnon, if_pos rfl]
      refine ⟨rfl, rfl, rfl, hone, ?_, ?_⟩
      · exact ((congrArg (· + 1) htwo).trans (add_assoc _ _ _)).trans
          (congrArg _ (UInt64.ofNat_add two 1).symm)
      · exact (congrArg (· + 1) hboth).trans (add_assoc _ _ _)

theorem Paired.pairNonPersistent (h : Paired per non base g s) (hper : per ≠ -1) (hnon : non ≠ -1)
    (hne : per ≠ non) : Paired per non base (g.observe .two) (pairNonPersistent s) := by
  obtain ⟨rfl, rfl, hpick, hone, htwo, hboth⟩ := h
  obtain ⟨pending, one, two, both⟩ := g
  rw [ServerEpx3.pairNonPersistent, if_pos ⟨hper, hnon⟩, hpick]
  cases pending with
  | none => exact ⟨rfl, rfl, rfl, hone, htwo, hboth⟩
  | some side =>
    cases side with
    | one =>
      rw [Pairing.pickOf, if_neg hper, if_pos rfl]
      refine ⟨rfl, rfl, rfl, ?_, htwo, ?_⟩
      · exact ((congrArg (· + 1) hone).trans (add_assoc _ _ _)).trans
          (congrArg _ (UInt64.ofNat_add one 1).symm)
      · exact (congrArg (· + 1) hboth).trans (add_assoc _ _ _)
    | two =>
      rw [Pairing.pickOf, if_neg hnon, if_neg hne.symm]
      exact ⟨rfl, rfl, hpick, hone, htwo, hboth⟩

theorem Paired.countData (h : Paired per non base g s) (hper : per ≠ -1) (hnon : non ≠ -1)
    (hne : per ≠ non) (fd : Fd) (n : Nat) (time endTime : Timeval) :
    Paired per non base ((if fd = s.slots.persistentFd then [Side.one]
      else if fd = s.slots.nonPersistentFd then [.two] else []).foldl Pairing.observe g)
      (countData s fd n time endTime) := by
  rw [ServerEpx3.countData]
  split
  · have htally : Paired per non base g (tallyPersistent s n time endTime) :=
      ⟨h.slotPer, h.slotNon, h.pick, h.one, h.two, h.both⟩
    exact htally.pairPersistent hper hnon hne
  · split
    · have htally : Paired per non base g (tallyNonPersistent s n time endTime) :=
        ⟨h.slotPer, h.slotNon, h.pick, h.one, h.two, h.both⟩
      exact htally.pairNonPersistent hper hnon hne
    · exact h

theorem paired_step {i : Input} (h : Paired per non base g s) (hper : per ≠ -1) (hnon : non ≠ -1)
    (hne : per ≠ non) (hsteady : Steady s i) :
    Paired per non base ((heard s i).foldl Pairing.observe g) (step s i) := by
  obtain ⟨_, _, _, halike⟩ := step_alike s i
  have hperform : Paired per non base ((heard s i).foldl Pairing.observe g)
      (perform s i.add (action s i)) := by
    rw [Steady] at hsteady
    rw [heard]
    cases ha : action s i with
    | quiet | stray => exact ⟨h.slotPer, h.slotNon, h.pick, h.one, h.two, h.both⟩
    | leave | finish =>
      rw [ha] at hsteady
      exact hsteady.elim
    | place fd connectTime =>
      have hslots := slots_place s fd connectTime i.add
      obtain ⟨_, _, _, _, hshape⟩ := place_shape s i.add fd connectTime
      rw [hshape] at hslots ⊢
      rcases hslots with ⟨hfree, _⟩ | ⟨hfree, _⟩ | ⟨_, _, hkept, hkept'⟩
      · exact absurd (h.slotPer.symm.trans hfree) hper
      · exact absurd (h.slotNon.symm.trans hfree) hnon
      · exact ⟨hkept.trans h.slotPer, hkept'.trans h.slotNon, h.pick, h.one, h.two, h.both⟩
    | data fd chunk time endTime =>
      rw [ha] at hsteady
      rw [perform, readData, if_neg hsteady]
      exact h.countData hper hnon hne fd chunk.length time endTime
  rw [halike]
  exact ⟨hperform.slotPer, hperform.slotNon, hperform.pick, hperform.one, hperform.two,
    hperform.both⟩

/-- While no slot changes hands, the pair counters follow the pairing of the slots. -/
theorem paired_run {is : List Input} (hpick : s.pick = -1) (hper : s.slots.persistentFd ≠ -1)
    (hnon : s.slots.nonPersistentFd ≠ -1) (hne : s.slots.persistentFd ≠ s.slots.nonPersistentFd)
    (hsteady : Along step Steady s is) :
    Paired s.slots.persistentFd s.slots.nonPersistentFd s.progress
      ((collect step heard s is).foldl Pairing.observe Pairing.fresh) (run step s is) := by
  induction is using List.reverseRecOn with
  | nil => exact ⟨rfl, rfl, hpick, (add_zero _).symm, (add_zero _).symm, (add_zero _).symm⟩
  | append_singleton is i ih =>
    rw [along_snoc] at hsteady
    rw [collect_snoc, run_snoc, List.foldl_append]
    exact paired_step (ih hsteady.1) hper hnon hne hsteady.2

end ConnectionOrder.ServerEpx3
