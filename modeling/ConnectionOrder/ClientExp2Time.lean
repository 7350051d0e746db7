import ConnectionOrder.Exp1.ClientFinal
import ConnectionOrder.Sockets

/-!
# The timed rotation of clientexp2_time

Two threads that take turns until each finds, in front of its loop, that its own
time is over. A thread that leaves does not pass the turn on. The message and the
socket options leave no trace in the model. successful_responses holds integers, which
do not exceed the number of sends.
-/

namespace ConnectionOrder.ClientExp2Time

open Machine Monitor
open ClientFinal (connId)

def tcpConn : Nat := 2
def experimentDuration : ℚ := 60

structure Shared where
  currentConn : Int
  successfulResponses : Fin tcpConn → Int

def initial : Shared := ⟨1, fun _ => 0⟩

/-- Whether connect succeeds, and what gettimeofday reads. -/
structure Answer where
  connected : Bool
  now : Timeval

/-- A thread keeps its start_time. -/
def sendPackets : Program (Fin tcpConn) Timeval Answer Shared where
  connect _ answer := if answer.connected then some answer.now else none
  again _ startTime answer :=
    let elapsed := timeDiff startTime answer.now
    if experimentDuration ≤ elapsed then none else some startTime
  turn thread _ s := decide (s.currentConn = connId thread)
  act thread _ _ s :=
    { successfulResponses := Function.update s.successfulResponses thread
        (s.successfulResponses thread + 1)
      currentConn := s.currentConn.tmod tcpConn + 1 }
  next _ startTime := startTime

abbrev SenderState := State (Fin tcpConn) Timeval Shared

abbrev Run :=
  Execution (step sendPackets) (fun s : SenderState => s = start initial) (Enabled sendPackets)

def Owns (s : Shared) (i : Fin tcpConn) : Prop := s.currentConn = connId i

/-- The thread has passed its exit test and not yet sent. -/
def Committed : Phase Timeval → Prop
  | .ready _ | .holding _ | .entered _ | .asleep _ => True
  | .fresh | .outside _ | .returned => False

/-- A thread waits for its turn, which belongs to one that has left. -/
def Orphaned (s : SenderState) : Prop :=
  ∃ i j l, s.phase i = .asleep l ∧ Owns s.shared j ∧ s.phase j = .returned

/-- A thread is going to wait for its turn, or waits already, and the turn belongs to
one that has left. -/
def Doomed (s : SenderState) : Prop :=
  ∃ i j, Committed (s.phase i) ∧ Owns s.shared j ∧ s.phase j = .returned

/-- No thread ends while the turn is its own and another has passed its exit test, and
none passes its exit test while the turn belongs to one that has ended. -/
def Considerate (s : SenderState) : Input (Fin tcpConn) Answer → Prop
  | .connect i answer =>
    answer.connected = false → Owns s.shared i → ∀ j, ¬Committed (s.phase j)
  | .again i answer => ∀ startTime, s.phase i = .outside startTime →
    if experimentDuration ≤ timeDiff startTime answer.now then
      Owns s.shared i → ∀ j, ¬Committed (s.phase j)
    else ∀ j, Owns s.shared j → s.phase j ≠ .returned
  | .lock _ | .test _ | .act .. | .wake _ => True

/-! ## What one step does to the turn -/

theorem owns_unique {s : Shared} {i j : Fin tcpConn} (hi : Owns s i) (hj : Owns s j) : i = j := by
  rw [Owns, connId] at hi hj
  exact Fin.ext (by omega)

theorem turn_iff {i : Fin tcpConn} {startTime : Timeval} {s : Shared} :
    sendPackets.turn i startTime s = true ↔ Owns s i := decide_eq_true_iff

theorem exists_owner_act {s : Shared} {i : Fin tcpConn} (h : Owns s i) (startTime : Timeval)
    (answer : Answer) : ∃ j, Owns (sendPackets.act i startTime answer s) j := by
  have hnext : (sendPackets.act i startTime answer s).currentConn =
      (connId i).tmod tcpConn + 1 := by
    rw [← h]
    rfl
  have hi : i.val = 0 ∨ i.val = 1 := by
    have hlt : i.val < 2 := i.isLt
    omega
  cases hi with
  | inl hfirst =>
    refine ⟨⟨1, by decide⟩, ?_⟩
    rw [Owns, hnext, connId, hfirst]
    rfl
  | inr hsecond =>
    refine ⟨⟨0, by decide⟩, ?_⟩
    rw [Owns, hnext, connId, hsecond]
    rfl

/-- A step that leaves everyone as committed and as gone as before. -/
theorem doomed_congr (s' s : SenderState) (hshared : s'.shared = s.shared)
    (hcommitted : ∀ j, Committed (s'.phase j) ↔ Committed (s.phase j))
    (hreturned : ∀ j, s'.phase j = .returned ↔ s.phase j = .returned) : Doomed s' ↔ Doomed s := by
  simp only [Doomed, hshared, hcommitted, hreturned]

theorem doomed_move_congr {s : SenderState} {i : Fin tcpConn} {phase : Phase Timeval}
    {holder : Option (Fin tcpConn)} (hcommitted : Committed phase ↔ Committed (s.phase i))
    (hbefore : s.phase i ≠ .returned) (hafter : phase ≠ .returned) :
    Doomed { s.move i phase with holder := holder } ↔ Doomed s := by
  apply doomed_congr { s.move i phase with holder := holder } s rfl
  · intro j
    change Committed (Function.update s.phase i phase j) ↔ _
    rcases eq_or_ne j i with rfl | hne
    · rw [Function.update_self]
      exact hcommitted
    · rw [Function.update_of_ne hne]
  · intro j
    change Function.update s.phase i phase j = _ ↔ _
    rcases eq_or_ne j i with rfl | hne
    · rw [Function.update_self]
      exact iff_of_false hafter hbefore
    · rw [Function.update_of_ne hne]

/-- A thread that was at the start or in front of the loop ends. -/
theorem doomed_move_returned {s : SenderState} {i : Fin tcpConn}
    (hcommitted : ¬Committed (s.phase i)) (hbefore : s.phase i ≠ .returned) :
    Doomed (s.move i .returned) ↔
      Doomed s ∨ (Owns s.shared i ∧ ∃ j, Committed (s.phase j)) := by
  have hself : (s.move i .returned).phase i = .returned := Function.update_self _ _ _
  have hother : ∀ j, j ≠ i → (s.move i .returned).phase j = s.phase j :=
    fun j hne => Function.update_of_ne hne _ _
  constructor
  · rintro ⟨a, b, ha, howns, hb⟩
    have hane : a ≠ i := by
      rintro rfl
      rw [hself] at ha
      exact ha
    rw [hother a hane] at ha
    rcases eq_or_ne b i with rfl | hne
    · exact .inr ⟨howns, a, ha⟩
    · rw [hother b hne] at hb
      exact .inl ⟨a, b, ha, howns, hb⟩
  · rintro (⟨a, b, ha, howns, hb⟩ | ⟨howns, a, ha⟩)
    · have hane : a ≠ i := fun h => hcommitted (h ▸ ha)
      have hbne : b ≠ i := fun h => hbefore (h ▸ hb)
      exact ⟨a, b, (hother a hane).symm ▸ ha, howns, (hother b hbne).trans hb⟩
    · have hane : a ≠ i := fun h => hcommitted (h ▸ ha)
      exact ⟨a, i, (hother a hane).symm ▸ ha, howns, hself⟩

/-- A thread that was in front of the loop goes on. -/
theorem doomed_move_ready {s : SenderState} {i : Fin tcpConn} {startTime startTime' : Timeval}
    (hphase : s.phase i = .outside startTime) :
    Doomed (s.move i (.ready startTime')) ↔
      Doomed s ∨ ∃ j, Owns s.shared j ∧ s.phase j = .returned := by
  have hself : (s.move i (.ready startTime')).phase i = .ready startTime' :=
    Function.update_self _ _ _
  have hother : ∀ j, j ≠ i → (s.move i (.ready startTime')).phase j = s.phase j :=
    fun j hne => Function.update_of_ne hne _ _
  have hgone : ∀ j, s.phase j = .returned → j ≠ i := by
    rintro j hj rfl
    rw [hphase] at hj
    cases hj
  constructor
  · rintro ⟨a, b, ha, howns, hb⟩
    have hbne : b ≠ i := by
      rintro rfl
      rw [hself] at hb
      cases hb
    rw [hother b hbne] at hb
    exact .inr ⟨b, howns, hb⟩
  · rintro (⟨a, b, ha, howns, hb⟩ | ⟨b, howns, hb⟩)
    · have hane : a ≠ i := by
        rintro rfl
        rw [hphase] at ha
        exact ha
      exact ⟨a, b, (hother a hane).symm ▸ ha, howns, (hother b (hgone b hb)).trans hb⟩
    · exact ⟨i, b, hself.symm ▸ trivial, howns, (hother b (hgone b hb)).trans hb⟩

/-- With two threads, the one that acts leaves nobody waiting for a thread that is gone. -/
theorem not_doomed_act {s : SenderState} {i : Fin tcpConn} {startTime : Timeval} {answer : Answer} :
    ¬Doomed { s.broadcast.move i (.outside startTime) with
      holder := none, shared := sendPackets.act i startTime answer s.shared } := by
  rintro ⟨a, b, ha, howns, hb⟩
  change Committed (Function.update s.broadcast.phase i _ a) at ha
  change Function.update s.broadcast.phase i _ b = _ at hb
  have hane : a ≠ i := by
    rintro rfl
    rw [Function.update_self] at ha
    exact ha
  have hbne : b ≠ i := by
    rintro rfl
    rw [Function.update_self] at hb
    cases hb
  -- Only one thread is left besides the one that acted.
  have hsame : a = b := by
    have hi : i.val < 2 := i.isLt
    have ha' : a.val < 2 := a.isLt
    have hb' : b.val < 2 := b.isLt
    have hai : a.val ≠ i.val := fun h => hane (Fin.ext h)
    have hbi : b.val ≠ i.val := fun h => hbne (Fin.ext h)
    exact Fin.ext (by omega)
  subst hsame
  rw [Function.update_of_ne hane] at ha hb
  rw [hb] at ha
  exact ha

theorem not_doomed_of_entered {s : SenderState} (hsound : Sound sendPackets s) {i : Fin tcpConn}
    {startTime : Timeval} (hphase : s.phase i = .entered startTime) : ¬Doomed s := by
  rintro ⟨a, b, ha, howns, hb⟩
  have hturn : Owns s.shared i := turn_iff.mp (hsound.entered i startTime hphase)
  rw [owns_unique howns hturn, hphase] at hb
  cases hb

theorem doomed_step_iff {s s' : SenderState} {input : Input (Fin tcpConn) Answer}
    (hsound : Sound sendPackets s) (hmove : Move sendPackets s input s') :
    Doomed s' ↔ Doomed s ∨ ¬Considerate s input := by
  cases hmove with
  | @refused i answer hphase hconnect =>
    have hrefused : answer.connected = false := by
      simpa [sendPackets] using hconnect
    rw [doomed_move_returned (by simp [hphase, Committed]) (by simp [hphase])]
    simp [Considerate, hrefused]
  | @connected i answer startTime hphase hconnect =>
    have hconnected : answer.connected = true := by
      rw [← Bool.not_eq_false]
      intro hrefused
      simp [sendPackets, hrefused] at hconnect
    have hcongr : Doomed (s.move i (.outside startTime)) ↔ Doomed s :=
      doomed_move_congr (by simp [hphase, Committed]) (by simp [hphase]) (by simp)
    rw [hcongr]
    simp [Considerate, hconnected]
  | @leave i answer startTime hphase hagain =>
    have hover : experimentDuration ≤ timeDiff startTime answer.now := by
      simpa [sendPackets] using hagain
    rw [doomed_move_returned (by simp [hphase, Committed]) (by simp [hphase])]
    simp [Considerate, hphase, hover]
  | @go i answer startTime startTime' hphase hagain =>
    have hmore : ¬experimentDuration ≤ timeDiff startTime answer.now := by
      intro hover
      simp [sendPackets, hover] at hagain
    rw [doomed_move_ready hphase]
    simp [Considerate, hphase, hmore]
  | @lock i startTime hphase hfree =>
    have hcongr : Doomed { s.move i (.holding startTime) with holder := some i } ↔ Doomed s :=
      doomed_move_congr (by simp [hphase, Committed]) (by simp [hphase]) (by simp)
    rw [hcongr]
    simp [Considerate]
  | @enter i startTime hphase hturn =>
    have hcongr : Doomed (s.move i (.entered startTime)) ↔ Doomed s :=
      doomed_move_congr (by simp [hphase, Committed]) (by simp [hphase]) (by simp)
    rw [hcongr]
    simp [Considerate]
  | @sleep i startTime hphase hturn =>
    have hcongr : Doomed { s.move i (.asleep startTime) with holder := none } ↔ Doomed s :=
      doomed_move_congr (by simp [hphase, Committed]) (by simp [hphase]) (by simp)
    rw [hcongr]
    simp [Considerate]
  | @wake i startTime hphase =>
    have hcongr : Doomed (s.move i (.ready startTime)) ↔ Doomed s :=
      doomed_move_congr (by simp [hphase, Committed]) (by simp [hphase]) (by simp)
    rw [hcongr]
    simp [Considerate]
  | @act i answer startTime hphase =>
    refine iff_of_false not_doomed_act ?_
    simp [Considerate, not_doomed_of_entered hsound hphase]

/-! ## Over a run -/

/-- One of the two threads owns the turn. -/
structure Steady (s : SenderState) : Prop where
  sound : Sound sendPackets s
  owner : ∃ i, Owns s.shared i

theorem steady_start : Steady (start initial) :=
  ⟨sound_start initial, ⟨0, by decide⟩, rfl⟩

theorem Steady.step {s s' : SenderState} {input : Input (Fin tcpConn) Answer} (h : Steady s)
    (hmove : Move sendPackets s input s') : Steady s' := by
  refine ⟨h.sound.step hmove, ?_⟩
  cases hmove with
  | refused | connected | leave | go | lock | enter | sleep | wake => exact h.owner
  | @act i answer startTime hphase =>
    exact exists_owner_act (turn_iff.mp (h.sound.entered i startTime hphase)) startTime answer

theorem always_steady (x : Run) : x.Always Steady := by
  apply x.invariant (P := Steady)
  · rintro _ rfl
    exact steady_start
  · exact fun s input henabled h => h.step (move_of_enabled henabled)

theorem not_doomed_start : ¬Doomed (start initial) := by
  rintro ⟨i, j, hcommitted, _⟩
  exact hcommitted

theorem never_doomed_iff (x : Run) : x.Always (fun s => ¬Doomed s) ↔ x.EachStep Considerate := by
  apply x.always_iff_eachStep (J := Steady)
  · rintro _ rfl
    exact ⟨steady_start, not_doomed_start⟩
  · exact fun s input henabled h _ _ => h.step (move_of_enabled henabled)
  · intro s input henabled h hfine
    rw [doomed_step_iff h.sound (move_of_enabled henabled), not_or, not_not]
    exact and_iff_right hfine

theorem not_orphaned_of_not_doomed {s : SenderState} (h : ¬Doomed s) : ¬Orphaned s := by
  rintro ⟨i, j, startTime, hasleep, howns, hreturned⟩
  exact h ⟨i, j, by rw [hasleep]; trivial, howns, hreturned⟩

/-- A thread that sleeps for ever waits for one that is gone. -/
theorem Steady.returned {s : SenderState} (h : Steady s) (hfine : ¬Doomed s)
    (hstuck : Stuck sendPackets s) (i : Fin tcpConn) : s.phase i = .returned := by
  have : Nonempty Answer := ⟨⟨true, ⟨0, 0⟩⟩⟩
  have hrest := (stuck_iff h.sound).mp hstuck
  obtain ⟨owner, howns⟩ := h.owner
  have hatRest : ∀ j, s.phase j = .returned ∨ ∃ startTime, s.phase j = .asleep startTime := by
    intro j
    have hj := hrest j
    cases hphase : s.phase j with
    | returned => exact .inl rfl
    | asleep startTime => exact .inr ⟨startTime, rfl⟩
    | fresh | outside | ready | holding | entered =>
      rw [hphase] at hj
      cases hj
  have howner : s.phase owner = .returned := by
    refine (hatRest owner).resolve_right ?_
    rintro ⟨startTime, hasleep⟩
    have hturn := h.sound.asleep owner startTime hasleep
    rw [turn_iff.mpr howns] at hturn
    cases hturn
  refine (hatRest i).resolve_right ?_
  rintro ⟨startTime, hasleep⟩
  exact hfine ⟨i, owner, by rw [hasleep]; trivial, howns, howner⟩

/-- In every run whose steps are considerate no thread waits for one that has left, and
both threads reach the end; a run that comes to an end in this way has no other steps. -/
theorem never_orphaned (x : Run) :
    (x.EachStep Considerate → x.Always (fun s => ¬Orphaned s) ∧
      x.Always fun s => Stuck sendPackets s → ∀ i, s.phase i = .returned) ∧
    ((∀ i, x.final.phase i = .returned) → x.EachStep Considerate) := by
  constructor
  · intro hconsiderate
    have hfine := (never_doomed_iff x).mpr hconsiderate
    exact ⟨fun n => not_orphaned_of_not_doomed (hfine n),
      fun n hstuck => (always_steady x n).returned (hfine n) hstuck⟩
  · intro hreturned
    by_contra hrude
    rw [← never_doomed_iff, Execution.Always, not_forall] at hrude
    obtain ⟨n, hdoomed⟩ := hrude
    rw [not_not] at hdoomed
    -- Nothing saves a doomed thread, so one is still waiting at the end.
    have hlast : Steady x.final ∧ Doomed x.final := by
      apply x.persists (P := fun s => Steady s ∧ Doomed s)
      · rintro s input henabled ⟨hsteady, h⟩
        have hmove := move_of_enabled henabled
        exact ⟨hsteady.step hmove, (doomed_step_iff hsteady.sound hmove).mpr (.inl h)⟩
      · exact ⟨always_steady x n, hdoomed⟩
    obtain ⟨i, j, hcommitted, _⟩ := hlast.2
    rw [hreturned i] at hcommitted
    exact hcommitted

/-! ## A turn that is lost -/

def readings (inputs : List (Input (Fin tcpConn) Answer)) : List Timeval :=
  inputs.filterMap fun input =>
    match input with
    | .connect _ answer | .again _ answer => some answer.now
    | .lock _ | .test _ | .act .. | .wake _ => none

/-- The clock of the machine never goes back. -/
def ClockForward (inputs : List (Input (Fin tcpConn) Answer)) : Prop :=
  (readings inputs).Pairwise fun earlier later => 0 ≤ timeDiff earlier later

/-- After 59 seconds the second thread goes to sleep, after 60 the first one leaves. -/
def lastSecond : List (Input (Fin tcpConn) Answer) :=
  let first : Fin tcpConn := ⟨0, by decide⟩
  let second : Fin tcpConn := ⟨1, by decide⟩
  [.connect first ⟨true, ⟨0, 0⟩⟩, .connect second ⟨true, ⟨0, 0⟩⟩, .again second ⟨true, ⟨59, 0⟩⟩,
    .lock second, .test second, .again first ⟨true, ⟨60, 0⟩⟩]

def lastSecondRun : Run := ⟨_, lastSecond, rfl, by with_unfolding_all decide⟩

theorem orphaned_lastSecond : ClockForward lastSecond ∧ Orphaned lastSecondRun.final ∧
    ¬lastSecondRun.Always (fun s => ¬Orphaned s) := by
  have hturn : Owns lastSecondRun.final.shared ⟨0, by decide⟩ := by
    rw [Owns]
    with_unfolding_all decide
  have horphaned : Orphaned lastSecondRun.final :=
    ⟨⟨1, by decide⟩, ⟨0, by decide⟩, ⟨0, 0⟩, by with_unfolding_all decide,
      hturn, by with_unfolding_all decide⟩
  refine ⟨?_, horphaned, fun h => h.final horphaned⟩
  rw [ClockForward]
  with_unfolding_all decide

end ConnectionOrder.ClientExp2Time
