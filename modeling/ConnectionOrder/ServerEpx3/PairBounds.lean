import ConnectionOrder.ServerEpx3.Measurement
import ConnectionOrder.ServerEpx3.Tallies

/-!
# Pairs against the events they are made of

both and the two event counters are reset together, pick is not. A pair is covered
by the counters when both slots have been heard since the last pair and the reset.
-/

namespace ConnectionOrder.ServerEpx3

open Machine Pairing

def intervalEvents (s : State) : Side → UInt64
  | .one => s.progress.onepertotalCount
  | .two => s.progress.onenonpertotalCount

def overallEvents (s : State) : Side → UInt64
  | .one => s.totals.allOnlyPersistentCount
  | .two => s.totals.allOnlyNonPersistentCount

/-- The subtractions at the fold sites do not wrap. -/
structure IntervalBounded (s : State) : Prop where
  persistent : s.progress.both ≤ s.progress.onepertotalCount.toNat
  nonPersistent : s.progress.both ≤ s.progress.onenonpertotalCount.toNat

/-- The subtractions in write_stats_to_file do not wrap. -/
structure OverallBounded (s : State) : Prop where
  persistent : s.totals.allBoth ≤ s.totals.allOnlyPersistentCount
  nonPersistent : s.totals.allBoth ≤ s.totals.allOnlyNonPersistentCount

/-- An event of the slot `side` finds the number of the other slot in pick. -/
def Completes (s : State) (side : Side) : Prop :=
  s.slots.persistentFd ≠ -1 ∧ s.slots.nonPersistentFd ≠ -1 ∧
  s.pick = pickOf s.slots.nonPersistentFd s.slots.persistentFd (some side)

instance (s : State) (side : Side) : Decidable (Completes s side) :=
  inferInstanceAs (Decidable (_ ∧ _ ∧ _))

/-- The events counted since the last pair, from the last reset on if `reset`. -/
def noteWindow (reset : Bool) (window : List Side) (s : State) (i : Input) : List Side :=
  match action s i with
  | .data fd chunk _ _ =>
    match tallied s fd chunk with
    | none => window
    | some side => if Completes (reassigned s fd chunk) side then [] else window ++ [side]
  | .finish => if reset then [] else window
  | .quiet | .place .. | .leave _ | .stray _ => window

/-- No event counter wraps, and a pair is completed only after events of both slots
in the window. -/
def Matched (events : State → Side → UInt64) (window : List Side) (s : State) (i : Input) : Prop :=
  match action s i with
  | .data fd chunk _ _ => ∀ side ∈ tallied s fd chunk, events s side + 1 ≠ 0 ∧
      (Completes (reassigned s fd chunk) side → Full (window ++ [side]))
  | .quiet | .place .. | .leave _ | .finish | .stray _ => True

instance (events : State → Side → UInt64) (window : List Side) (s : State) (i : Input) :
    Decidable (Matched events window s i) := by
  unfold Matched
  match action s i with
  | .data .. => infer_instance
  | .quiet | .place .. | .leave _ | .finish | .stray _ => infer_instance

/-! ## What an event counts -/

def tallySide (s : State) (side : Side) (bytesRead : Nat) (time endTime : Timeval) : State :=
  match side with
  | .one => pairPersistent (tallyPersistent s bytesRead time endTime)
  | .two => pairNonPersistent (tallyNonPersistent s bytesRead time endTime)

theorem readData_some {s : State} {fd : Fd} {chunk : Chunk bufferSize} {side : Side}
    (hfd : fd ≠ -1) (h : tallied s fd chunk = some side) (time endTime : Timeval) :
    readData s fd chunk time endTime =
      tallySide (reassigned s fd chunk) side chunk.length time endTime := by
  cases side with
  | one =>
    obtain ⟨hmis, _, hread⟩ := readData_one h time endTime
    rw [hread, reassigned, if_neg hmis]
    rfl
  | two => exact readData_two hfd h time endTime

theorem pairs_pairPersistent (s : State) :
    (pairPersistent s).progress.both = s.progress.both + (if Completes s .one then 1 else 0) ∧
    (pairPersistent s).totals.allBoth = s.totals.allBoth + (if Completes s .one then 1 else 0) := by
  cases Decidable.em (Completes s .one) with
  | inl hcomplete =>
    have hpick : s.pick = s.slots.nonPersistentFd := hcomplete.2.2
    have hbusy : s.pick ≠ -1 := hpick ▸ hcomplete.2.1
    rw [if_pos hcomplete, if_pos hcomplete, pairPersistent, if_pos ⟨hcomplete.1, hcomplete.2.1⟩,
      if_neg hbusy, if_pos hpick]
    exact ⟨rfl, rfl⟩
  | inr hopen =>
    rw [if_neg hopen, if_neg hopen, add_zero, add_zero, pairPersistent]
    split_ifs with hslots hnone hother
    · exact ⟨rfl, rfl⟩
    · exact absurd ⟨hslots.1, hslots.2, hother⟩ hopen
    · exact ⟨rfl, rfl⟩
    · exact ⟨rfl, rfl⟩

theorem pairs_pairNonPersistent (s : State) :
    (pairNonPersistent s).progress.both = s.progress.both + (if Completes s .two then 1 else 0) ∧
    (pairNonPersistent s).totals.allBoth =
      s.totals.allBoth + (if Completes s .two then 1 else 0) := by
  cases Decidable.em (Completes s .two) with
  | inl hcomplete =>
    have hpick : s.pick = s.slots.persistentFd := hcomplete.2.2
    have hbusy : s.pick ≠ -1 := hpick ▸ hcomplete.1
    rw [if_pos hcomplete, if_pos hcomplete, pairNonPersistent, if_pos ⟨hcomplete.1, hcomplete.2.1⟩,
      if_neg hbusy, if_pos hpick]
    exact ⟨rfl, rfl⟩
  | inr hopen =>
    rw [if_neg hopen, if_neg hopen, add_zero, add_zero, pairNonPersistent]
    split_ifs with hslots hnone hother
    · exact ⟨rfl, rfl⟩
    · exact absurd ⟨hslots.1, hslots.2, hother⟩ hopen
    · exact ⟨rfl, rfl⟩
    · exact ⟨rfl, rfl⟩

/-- What both records of pairs and events look like after an event of `side`. -/
structure EventCounted (s s' : State) (side : Side) (pair : Prop) [Decidable pair] : Prop where
  interval : intervalEvents s' = Function.update (intervalEvents s) side (intervalEvents s side + 1)
  overall : overallEvents s' = Function.update (overallEvents s) side (overallEvents s side + 1)
  both : s'.progress.both = s.progress.both + if pair then 1 else 0
  allBoth : s'.totals.allBoth = s.totals.allBoth + if pair then 1 else 0

theorem eventCounted_tallySide (s : State) (side : Side) (n : Nat) (time endTime : Timeval) :
    EventCounted s (tallySide s side n time endTime) side (Completes s side) := by
  cases side with
  | one =>
    obtain ⟨_, _, _, _, _, hpair⟩ := pairPersistent_shape (tallyPersistent s n time endTime)
    obtain ⟨hboth, hall⟩ := pairs_pairPersistent (tallyPersistent s n time endTime)
    refine ⟨?_, ?_, hboth, hall⟩
    · funext other
      rw [tallySide, hpair]
      cases other <;> rfl
    · funext other
      rw [tallySide, hpair]
      cases other <;> rfl
  | two =>
    obtain ⟨_, _, _, _, _, hpair⟩ := pairNonPersistent_shape (tallyNonPersistent s n time endTime)
    obtain ⟨hboth, hall⟩ := pairs_pairNonPersistent (tallyNonPersistent s n time endTime)
    refine ⟨?_, ?_, hboth, hall⟩
    · funext other
      rw [tallySide, hpair]
      cases other <;> rfl
    · funext other
      rw [tallySide, hpair]
      cases other <;> rfl

/-! ## What a step counts -/

/-- The pairs and the event counters of two states are the same. -/
structure SameCounts (s s' : State) : Prop where
  interval : intervalEvents s' = intervalEvents s
  overall : overallEvents s' = overallEvents s
  both : s'.progress.both = s.progress.both
  allBoth : s'.totals.allBoth = s.totals.allBoth

theorem sameCounts_reassigned (s : State) (fd : Fd) (chunk : Chunk bufferSize) :
    SameCounts s (reassigned s fd chunk) := by
  obtain ⟨_, _, _, _, _, _, _, _, _, _, _, hshape⟩ := demote_shape s fd
  rw [reassigned]
  split
  · rw [hshape]
    exact ⟨rfl, rfl, rfl, rfl⟩
  · exact ⟨rfl, rfl, rfl, rfl⟩

theorem sameCounts_place (s : State) (add : Bool) (fd : Fd) (connectTime : Timeval) :
    SameCounts s (perform s add (.place fd connectTime)) := by
  obtain ⟨_, _, _, _, hshape⟩ := place_shape s add fd connectTime
  rw [hshape]
  exact ⟨rfl, rfl, rfl, rfl⟩

/-! ## Coverage by unsigned counters -/

theorem toNat_succ {a : UInt64} (h : a + 1 ≠ 0) : (a + 1).toNat = a.toNat + 1 := by
  have hne : (a + 1).toNat ≠ 0 := fun hzero => h (UInt64.toNat_inj.mp hzero)
  have hlt := a.toNat_lt
  have hone : (1 : UInt64).toNat = 1 := rfl
  rw [UInt64.toNat_add] at hne ⊢
  omega

variable {window : List Side} {side : Side} {pair : Prop} [Decidable pair]

/-- An event of `side` that does not wrap its counter keeps the coverage. -/
theorem covered_event {events : Side → UInt64} {pairs : Int}
    (h : Covered window (fun other => (events other).toNat) pairs)
    (hroom : events side + 1 ≠ 0) (hfull : pair → Full (window ++ [side])) :
    Covered (if pair then [] else window ++ [side])
      (fun other => (Function.update events side (events side + 1) other).toNat)
      (pairs + if pair then 1 else 0) := by
  have hevents : (fun other => (Function.update events side (events side + 1) other).toNat) =
      Function.update (fun other => (events other).toNat) side ((events side).toNat + 1) := by
    funext other
    rcases eq_or_ne other side with rfl | hne
    · rw [Function.update_self, Function.update_self, toNat_succ hroom]
    · rw [Function.update_of_ne hne, Function.update_of_ne hne]
  rw [hevents]
  split
  · rename_i hpair
    exact (h.event side).pair (hfull hpair)
  · rw [add_zero]
    exact h.event side

/-- A counter of pairs that is covered does not wrap. -/
theorem toNat_add_pair {all : UInt64} {bound : UInt64}
    (h : (all.toNat : Int) + (if pair then 1 else 0) ≤ bound.toNat) :
    ((all + if pair then 1 else 0).toNat : Int) = all.toNat + if pair then 1 else 0 := by
  split
  · rename_i hpair
    rw [if_pos hpair] at h
    have hlt := bound.toNat_lt
    have hone : (1 : UInt64).toNat = 1 := rfl
    rw [UInt64.toNat_add]
    omega
  · rw [add_zero, add_zero]

/-! ## Runs -/

def IntervalCovered (window : List Side) (s : State) : Prop :=
  Covered window (fun side => (intervalEvents s side).toNat) s.progress.both

def OverallCovered (window : List Side) (s : State) : Prop :=
  Covered window (fun side => (overallEvents s side).toNat) s.totals.allBoth.toNat

variable {s s' : State}

theorem IntervalCovered.bounded (h : IntervalCovered window s) : IntervalBounded s :=
  ⟨h.le .one, h.le .two⟩

theorem OverallCovered.bounded (h : OverallCovered window s) : OverallBounded s :=
  ⟨UInt64.le_iff_toNat_le.mpr (Int.ofNat_le.mp (h.le .one)),
    UInt64.le_iff_toNat_le.mpr (Int.ofNat_le.mp (h.le .two))⟩

theorem IntervalCovered.same (h : IntervalCovered window s) (hsame : SameCounts s s') :
    IntervalCovered window s' := by
  rw [IntervalCovered, hsame.interval, hsame.both]
  exact h

theorem OverallCovered.same (h : OverallCovered window s) (hsame : SameCounts s s') :
    OverallCovered window s' := by
  rw [OverallCovered, hsame.overall, hsame.allBoth]
  exact h

theorem IntervalCovered.counted (h : IntervalCovered window s)
    (hcounted : EventCounted s s' side pair) (hroom : intervalEvents s side + 1 ≠ 0)
    (hfull : pair → Full (window ++ [side])) :
    IntervalCovered (if pair then [] else window ++ [side]) s' := by
  rw [IntervalCovered, hcounted.interval, hcounted.both]
  exact covered_event h hroom hfull

theorem OverallCovered.counted (h : OverallCovered window s)
    (hcounted : EventCounted s s' side pair) (hroom : overallEvents s side + 1 ≠ 0)
    (hfull : pair → Full (window ++ [side])) :
    OverallCovered (if pair then [] else window ++ [side]) s' := by
  have hcovered := covered_event h hroom hfull
  rw [OverallCovered, hcounted.overall, hcounted.allBoth, toNat_add_pair (hcovered.le side)]
  exact hcovered

theorem sameCounts_readData {fd : Fd} {chunk : Chunk bufferSize} (hfd : fd ≠ -1)
    (h : tallied s fd chunk = none) (time endTime : Timeval) :
    SameCounts s (readData s fd chunk time endTime) := by
  rw [readData_none hfd h]
  exact sameCounts_reassigned s fd chunk

theorem eventCounted_readData {fd : Fd} {chunk : Chunk bufferSize} (hfd : fd ≠ -1)
    (h : tallied s fd chunk = some side) (time endTime : Timeval) :
    EventCounted s (readData s fd chunk time endTime) side
      (Completes (reassigned s fd chunk) side) := by
  obtain ⟨hinterval, hoverall, hboth, hall⟩ := sameCounts_reassigned s fd chunk
  have hcounted := eventCounted_tallySide (reassigned s fd chunk) side chunk.length time endTime
  rw [readData_some hfd h]
  exact ⟨hinterval ▸ hcounted.interval, hoverall ▸ hcounted.overall, hboth ▸ hcounted.both,
    hall ▸ hcounted.allBoth⟩

/-- What makes `C`, coverage in one of the two records, an invariant: a step counts
nothing, counts an event, or finishes a connection. -/
structure Record (C : List Side → State → Prop) (events : State → Side → UInt64) (reset : Bool) :
    Prop where
  start : ∀ s, Initial s → C [] s
  same : ∀ window s s', C window s → SameCounts s s' → C window s'
  counted : ∀ window s s' side (pair : Prop) [Decidable pair], C window s →
    EventCounted s s' side pair → events s side + 1 ≠ 0 → (pair → Full (window ++ [side])) →
    C (if pair then [] else window ++ [side]) s'
  finish : ∀ window s add, C window s → C (if reset then [] else window) (perform s add .finish)

theorem interval_record : Record IntervalCovered intervalEvents true where
  start := by
    rintro s ⟨_, _, _, _, _, rfl⟩ side
    cases side <;> exact Int.le_refl 0
  same _ _ _ h hsame := h.same hsame
  counted _ _ _ _ _ _ h hcounted hroom hfull := h.counted hcounted hroom hfull
  finish window s add _ := by
    obtain ⟨_, _, _, _, _, hshape⟩ := promoteQueued_shape (expireInactive s) add
    rw [perform, hshape]
    intro side
    cases side <;> exact Int.le_refl 0

theorem overall_record : Record OverallCovered overallEvents false where
  start := by
    rintro s ⟨_, _, _, _, _, rfl⟩ side
    cases side <;> exact Int.le_refl 0
  same _ _ _ h hsame := h.same hsame
  counted _ _ _ _ _ _ h hcounted hroom hfull := h.counted hcounted hroom hfull
  finish window s add h := by
    obtain ⟨_, _, _, _, _, hshape⟩ := promoteQueued_shape (expireInactive s) add
    rw [perform, hshape]
    exact h

variable {C : List Side → State → Prop} {events : State → Side → UInt64} {reset : Bool}

theorem Record.step (hrec : Record C events reset) {i : Input} (hp : Permitted s i)
    (hpos : SocketsNonneg s) (hmatched : Matched events window s i) (h : C window s) :
    C (noteWindow reset window s i) (ServerEpx3.step s i) := by
  have hperform : C (noteWindow reset window s i) (perform s i.add (action s i)) := by
    rw [Matched] at hmatched
    rw [noteWindow]
    cases ha : action s i with
    | quiet | leave | stray => exact hrec.same _ _ _ h ⟨rfl, rfl, rfl, rfl⟩
    | place fd connectTime => exact hrec.same _ _ _ h (sameCounts_place s i.add fd connectTime)
    | finish => exact hrec.finish _ _ _ h
    | data fd chunk time endTime =>
      have hfd := ne_sentinel_of_open hpos (permitted_data hp ha)
      rw [ha] at hmatched
      dsimp only at hmatched ⊢
      cases htally : tallied s fd chunk with
      | none => exact hrec.same _ _ _ h (sameCounts_readData hfd htally time endTime)
      | some side =>
        obtain ⟨hroom, hfull⟩ := hmatched side htally
        exact hrec.counted _ _ _ _ _ h (eventCounted_readData hfd htally time endTime) hroom hfull
  obtain ⟨_, _, _, halike⟩ := step_alike s i
  rw [halike]
  exact hrec.same _ _ _ hperform ⟨rfl, rfl, rfl, rfl⟩

theorem Record.run (hrec : Record C events reset) (x : Run)
    (hmatched : (x.withHistory (noteWindow reset) []).EachStep fun p i => Matched events p.1 p.2 i)
    (n : Nat) : C ((x.upTo n).tracked (noteWindow reset) []) (x.stateAt n) :=
  (x.history_invariant (Q := fun window s => SocketsNonneg s ∧ C window s)
    (R := fun window s i => Matched events window s i)
    (fun s hinit => ⟨socketsNonneg_start hinit, hrec.start s hinit⟩)
    (fun _ _ _ hp hR h => ⟨socketsNonneg_step hp h.1, hrec.step hp h.1 hR h.2⟩) hmatched n).2

/-- In a run whose pairs are matched since the last reset no subtraction at a fold site
wraps, and in one whose pairs are matched since the last pair none of
write_stats_to_file. -/
theorem pairs_bounded (x : Run) :
    (((x.withHistory (noteWindow true) []).EachStep fun p i => Matched intervalEvents p.1 p.2 i) →
      x.Always IntervalBounded) ∧
    (((x.withHistory (noteWindow false) []).EachStep fun p i => Matched overallEvents p.1 p.2 i) →
      x.Always OverallBounded) :=
  ⟨fun hmatched n => (interval_record.run x hmatched n).bounded,
    fun hmatched n => (overall_record.run x hmatched n).bounded⟩

theorem bounded_pairedConnection :
    pairedConnectionRun.Always IntervalBounded ∧ pairedConnectionRun.Always OverallBounded :=
  ⟨(pairs_bounded pairedConnectionRun).1
      (by with_unfolding_all decide :
        Along (withHistory step (noteWindow true)) (fun p i => Matched intervalEvents p.1 p.2 i)
          ([], freshStart) pairedConnection),
    (pairs_bounded pairedConnectionRun).2
      (by with_unfolding_all decide :
        Along (withHistory step (noteWindow false)) (fun p i => Matched overallEvents p.1 p.2 i)
          ([], freshStart) pairedConnection)⟩

/-- The first client is demoted into the queue and lost when its promotion is refused.
The number of its successor, kept in pick, comes back on the other side. -/
def reusedPick : List Input :=
  [ready [3] 0, accepts 4 true 0, ready [3] 0, accepts 5 true 0, ready [4] 1,
    receives (.data chunkN) true 1, ready [3] 1, accepts 6 true 1, ready [3] 1, accepts 7 true 1,
    ready [6] 2, receives (.data chunkP) true 2, ready [5] 3, receives .eof false 3,
    ready [6] 4, receives .eof true 4, ready [3] 5, accepts 4 true 5, ready [3] 5,
    accepts 5 true 5, ready [3] 5, accepts 6 true 5, ready [5] 6, receives .eof true 6,
    ready [7] 7, receives .eof true 7, ready [4] 8, receives (.data chunkP) true 8, .signal]

theorem permitted_reusedPick : Along step Permitted freshStart reusedPick := by
  with_unfolding_all decide

def reusedPickRun : Run := ⟨freshStart, reusedPick, initial_freshStart, permitted_reusedPick⟩

/-- The state in which stalePick finishes its second connection, and the final one of
reusedPick. -/
theorem wrapped_stalePick : stalePickRun.EachStep AddObeyed ∧
    reusedPickRun.EachStep AddObeyed ∧
    (stalePickRun.stateAt 13).progress.both = 1 ∧
    (stalePickRun.stateAt 13).progress.onepertotalCount = 0 ∧
    ¬stalePickRun.Always IntervalBounded ∧
    reusedPickRun.final.totals.allBoth = 1 ∧
    reusedPickRun.final.totals.allOnlyNonPersistentCount = 0 ∧
    ¬reusedPickRun.Always OverallBounded := by
  have hboth : (stalePickRun.stateAt 13).progress.both = 1 := by with_unfolding_all decide
  have hper : (stalePickRun.stateAt 13).progress.onepertotalCount = 0 := by
    with_unfolding_all decide
  have hall : reusedPickRun.final.totals.allBoth = 1 := by with_unfolding_all decide
  have hnon : reusedPickRun.final.totals.allOnlyNonPersistentCount = 0 := by
    with_unfolding_all decide
  refine ⟨(by with_unfolding_all decide : Along step AddObeyed freshStart stalePick),
    (by with_unfolding_all decide : Along step AddObeyed freshStart reusedPick),
    hboth, hper, fun h => ?_, hall, hnon, fun h => ?_⟩
  · have hbound := (h 13).persistent
    rw [hboth, hper] at hbound
    exact absurd hbound (by decide)
  · have hbound := h.final.nonPersistent
    rw [hall, hnon] at hbound
    exact absurd hbound (by decide)

end ConnectionOrder.ServerEpx3
