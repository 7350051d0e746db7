import ConnectionOrder.ServerEpx3.Fairness

/-!
# Branches that leave more or less than their siblings

A client whose registration fails is closed, but the slot it was given keeps its
number. The inactivity close finishes a connection as the EOF branch does, except
that it does not stop the loop after the last client.
-/

namespace ConnectionOrder.ServerEpx3

open Machine

/-! ## Failed registrations -/

/-- An accepted client gets a slot, and its EPOLL_CTL_ADD fails. No ADD is attempted
for a client that is queued or rejected. -/
def FailedAdd (s : State) (i : Input) : Prop :=
  match action s i with
  | .place .. => (s.slots.persistentFd = -1 ∨ s.slots.nonPersistentFd = -1) ∧ i.add = false
  | .quiet | .data .. | .leave _ | .finish | .stray _ => False

instance (s : State) (i : Input) : Decidable (FailedAdd s i) := by
  unfold FailedAdd
  match action s i with
  | .place .. => infer_instance
  | .quiet | .data .. | .leave _ | .finish | .stray _ => infer_instance

def CountersKept (s s' : State) : Prop :=
  s'.slots.nonPersistentQueue = s.slots.nonPersistentQueue ∧ s'.activeClients = s.activeClients ∧
  s'.rejected = s.rejected ∧ s'.pick = s.pick ∧ s'.progress = s.progress ∧ s'.totals = s.totals ∧
  s'.report = s.report

def Untouched (s s' : State) : Prop :=
  s'.slots.persistentFd = s.slots.persistentFd ∧
  s'.slots.nonPersistentFd = s.slots.nonPersistentFd ∧ CountersKept s s'

inductive Role where
  | persistent
  | nonPersistent
  | queued
  | rejected
deriving DecidableEq

/-- What the next accepted client becomes. -/
def role (s : State) : Role :=
  if s.slots.persistentFd = -1 then .persistent
  else if s.slots.nonPersistentFd = -1 then .nonPersistent
  else if s.slots.nonPersistentQueue.count < maxNonPersistent then .queued
  else .rejected

/-- The new client is closed again and the counters are as before, but its slot
stays taken. -/
structure Traced (s s' : State) (fd : Fd) : Prop where
  closed : fd ∉ s'.kernel.sockets
  kept : CountersKept s s'
  slot : (s.slots.persistentFd = -1 ∧ s'.slots.persistentFd = fd ∧
      s'.slots.nonPersistentFd = s.slots.nonPersistentFd) ∨
    (s.slots.persistentFd ≠ -1 ∧ s.slots.nonPersistentFd = -1 ∧
      s'.slots.persistentFd = s.slots.persistentFd ∧ s'.slots.nonPersistentFd = fd)

theorem traced_place {s : State} (fd : Fd) (connectTime : Timeval)
    (h : s.slots.persistentFd = -1 ∨ s.slots.nonPersistentFd = -1) :
    Traced s (perform s false (.place fd connectTime)) fd := by
  have hcount : s.activeClients + 1 - 1 = s.activeClients := Int.add_sub_cancel _ _
  rw [perform, placeClient]
  split
  · rename_i hper
    exact ⟨Finset.notMem_erase fd _, ⟨rfl, hcount, rfl, rfl, rfl, rfl, rfl⟩, .inl ⟨hper, rfl, rfl⟩⟩
  · rename_i hper
    have hnon := h.resolve_left hper
    rw [if_pos hnon]
    exact ⟨Finset.notMem_erase fd _, ⟨rfl, hcount, rfl, rfl, rfl, rfl, rfl⟩,
      .inr ⟨hper, hnon, rfl, rfl⟩⟩

theorem Traced.visible {s s' : State} {fd : Fd} (h : Traced s s' fd) (hfd : fd ≠ -1) :
    ¬Untouched s s' ∧ role s' ≠ role s := by
  rcases h.slot with ⟨hfree, hper, _⟩ | ⟨hbusy, hfree, hper, hnon⟩
  · constructor
    · intro hsame
      exact hfd (hper.symm.trans (hsame.1.trans hfree))
    · rw [role, role, if_pos hfree, if_neg (hper ▸ hfd)]
      split_ifs <;> decide
  · constructor
    · intro hsame
      exact hfd (hnon.symm.trans (hsame.2.1.trans hfree))
    · rw [role, role, if_neg hbusy, if_pos hfree, if_neg (hper ▸ hbusy), if_neg (hnon ▸ hfd)]
      split_ifs <;> decide

/-- Every failed registration leaves its slot naming a closed descriptor, so the next
client does not get the role it would have got. -/
theorem failed_add_keeps_slot (x : Run) {n : Nat} (hn : n < x.inputs.length)
    (hfail : FailedAdd (x.stateAt n) x.inputs[n]) :
    ∃ fd, Traced (x.stateAt n) (x.stateAt (n + 1)) fd ∧
      ¬Untouched (x.stateAt n) (x.stateAt (n + 1)) ∧
      role (x.stateAt (n + 1)) ≠ role (x.stateAt n) := by
  have hp := x.eachStep_iff.mp x.permits n hn
  obtain ⟨_, _, _, halike⟩ := step_alike (x.stateAt n) x.inputs[n]
  rw [x.stateAt_succ hn, halike]
  cases ha : action (x.stateAt n) x.inputs[n] with
  | quiet | data | leave | finish | stray =>
    rw [FailedAdd, ha] at hfail
    exact hfail.elim
  | place fd connectTime =>
    rw [FailedAdd, ha] at hfail
    obtain ⟨hfree, hadd⟩ := hfail
    obtain ⟨hclosed, hkept, hslot⟩ := traced_place fd connectTime hfree
    rw [hadd]
    suffices htraced : Traced (x.stateAt n) _ fd from
      ⟨fd, htraced, htraced.visible (ne_sentinel (permitted_place hp ha).1)⟩
    exact ⟨hclosed, hkept, hslot⟩

def refusedClient : List Input := [ready [3] 0, accepts 4 false 0]

theorem permitted_refusedClient : Along step Permitted freshStart refusedClient := by
  with_unfolding_all decide

def refusedClientRun : Run :=
  ⟨freshStart, refusedClient, initial_freshStart, permitted_refusedClient⟩

theorem refused_keeps_slot : ∃ fd,
    Traced (refusedClientRun.stateAt 1) (refusedClientRun.stateAt 2) fd ∧
    ¬Untouched (refusedClientRun.stateAt 1) (refusedClientRun.stateAt 2) ∧
    role (refusedClientRun.stateAt 2) ≠ role (refusedClientRun.stateAt 1) :=
  failed_add_keeps_slot refusedClientRun (n := 1) (by decide)
    (by with_unfolding_all decide :
      FailedAdd (run step freshStart (refusedClient.take 1)) (accepts 4 false 0))

theorem slot_lost_refusedClient :
    FailedAdd (refusedClientRun.stateAt 1) (accepts 4 false 0) ∧
    refusedClientRun.final.slots.persistentFd = 4 ∧
    (4 : Fd) ∉ refusedClientRun.final.kernel.sockets ∧
    ¬Untouched (refusedClientRun.stateAt 1) refusedClientRun.final := by
  have hslot : refusedClientRun.final.slots.persistentFd = 4 := by with_unfolding_all decide
  refine ⟨(by with_unfolding_all decide :
    FailedAdd (run step freshStart (refusedClient.take 1)) (accepts 4 false 0)), hslot,
    by with_unfolding_all decide, fun hsame => ?_⟩
  have hbefore : (refusedClientRun.stateAt 1).slots.persistentFd = -1 := by
    with_unfolding_all decide
  have habsurd := hslot.symm.trans (hsame.1.trans hbefore)
  exact absurd habsurd (by decide)

/-! ## The two copies of finishing a connection -/

/-- The same slots, queue, client count, counters, report and running flag. -/
def Agree (s s' : State) : Prop :=
  s'.slots = s.slots ∧ s'.activeClients = s.activeClients ∧ s'.rejected = s.rejected ∧
  s'.pick = s.pick ∧ s'.progress = s.progress ∧ s'.totals = s.totals ∧ s'.report = s.report ∧
  s'.running = s.running

/-- The last client goes: active_clients is 1, and nothing stays in the queue. -/
def LastLeaves (s : State) (add : Bool) : Prop :=
  s.running = true ∧ s.activeClients = 1 ∧
  (s.slots.nonPersistentQueue.count = 0 ∨ s.slots.nonPersistentQueue.count = 1 ∧ add = true)

instance (s : State) (add : Bool) : Decidable (LastLeaves s add) :=
  inferInstanceAs (Decidable (_ ∧ _ ∧ _))

theorem Agree.refl (s : State) : Agree s s := ⟨rfl, rfl, rfl, rfl, rfl, rfl, rfl, rfl⟩

theorem Agree.trans {s t u : State} (h : Agree s t) (h' : Agree t u) : Agree s u := by
  obtain ⟨h1, h2, h3, h4, h5, h6, h7, h8⟩ := h
  obtain ⟨h1', h2', h3', h4', h5', h6', h7', h8'⟩ := h'
  exact ⟨h1'.trans h1, h2'.trans h2, h3'.trans h3, h4'.trans h4, h5'.trans h5, h6'.trans h6,
    h7'.trans h7, h8'.trans h8⟩

theorem Agree.symm {s s' : State} (h : Agree s s') : Agree s' s := by
  obtain ⟨h1, h2, h3, h4, h5, h6, h7, h8⟩ := h
  exact ⟨h1.symm, h2.symm, h3.symm, h4.symm, h5.symm, h6.symm, h7.symm, h8.symm⟩

theorem Alike.agree {s s' : State} (h : Alike s s') (hrunning : s'.running = s.running) :
    Agree s s' := by
  obtain ⟨_, _, _, rfl⟩ := h
  exact ⟨rfl, rfl, rfl, rfl, rfl, rfl, rfl, hrunning⟩

theorem agree_epollWait {s : State} {batch : Option (List Fd)} {currentTime : Timeval}
    (eventTime : Timeval) (add : Bool) (hidle : ¬IdleStop s batch currentTime)
    (hinactive : Inactive s currentTime) :
    Agree (promoteQueued (expireInactive s) add) (epollWait s batch currentTime eventTime add) := by
  have halike := epollWait_alike s batch currentTime eventTime add
  rw [action, if_neg hidle, if_pos hinactive, perform] at halike
  apply halike.agree
  have hpromote : ∀ s, (promoteQueued s add).running = s.running := by
    intro s
    obtain ⟨_, _, _, _, _, hshape⟩ := promoteQueued_shape s add
    rw [hshape]
  obtain ⟨_, hshape⟩ := noteEvents_shape s batch eventTime
  have hnote : (expireInactive (noteEvents s batch eventTime)).running = s.running := by
    rw [hshape]
    rfl
  have hinactive' : Inactive (noteEvents s batch eventTime) currentTime := by
    rw [hshape]
    exact hinactive
  rw [hpromote, epollWait, if_neg hidle]
  dsimp only
  rw [if_pos hinactive']
  split <;> exact (hpromote _).trans hnote

theorem agree_stopWhenDone_iff (s : State) : Agree s (stopWhenDone s) ↔
    ¬(s.running = true ∧ s.activeClients = 0 ∧ s.slots.nonPersistentQueue.count = 0) := by
  rw [stopWhenDone]
  split
  · rename_i hdone
    constructor
    · rintro ⟨_, _, _, _, _, _, _, hrunning⟩ ⟨hon, _⟩
      exact Bool.false_ne_true (hrunning.trans hon)
    · intro hoff
      have hstopped : s.running = false := by
        cases hrunning : s.running with
        | false => rfl
        | true => exact absurd ⟨hrunning, hdone⟩ hoff
      exact ⟨rfl, rfl, rfl, rfl, rfl, rfl, rfl, hstopped.symm⟩
  · rename_i hmore
    exact iff_of_true (Agree.refl s) fun hdone => hmore hdone.2

/-- What the EOF branch tests after the promotion, told from the state before. -/
theorem done_promoteQueued_iff (s : State) (add : Bool)
    (hkept : ¬PromotionRefused (expireInactive s) add) :
    let s' := promoteQueued (expireInactive s) add
    (s'.running = true ∧ s'.activeClients = 0 ∧ s'.slots.nonPersistentQueue.count = 0) ↔
      LastLeaves s add := by
  have hcount : (expireInactive s).slots.nonPersistentQueue.count =
      s.slots.nonPersistentQueue.count := rfl
  rw [PromotionRefused, hcount] at hkept
  rw [LastLeaves, promoteQueued]
  split
  · rename_i hqueue
    rw [hcount] at hqueue
    cases add with
    | false => exact absurd ⟨hqueue, rfl⟩ hkept
    | true =>
      change s.running = true ∧ s.activeClients - 1 = 0 ∧ s.slots.nonPersistentQueue.count - 1 = 0 ↔
        _
      simp only [and_true]
      refine and_congr_right fun _ => ?_
      omega
  · rename_i hqueue
    rw [hcount] at hqueue
    change s.running = true ∧ s.activeClients - 1 = 0 ∧ s.slots.nonPersistentQueue.count = 0 ↔ _
    refine and_congr_right fun _ => ?_
    omega

theorem agree_closeClient_iff {s : State} (hbusy : s.slots.nonPersistentFd ≠ -1) (time : Timeval)
    (add : Bool) :
    Agree (promoteQueued (expireInactive s) add)
        (closeClient s s.slots.nonPersistentFd time add) ↔
      s.slots.persistentFd ≠ s.slots.nonPersistentFd ∧ ¬LastLeaves s add := by
  rw [closeClient]
  cases eq_or_ne s.slots.nonPersistentFd s.slots.persistentFd with
  | inl hshared =>
    -- The EOF branch takes the descriptor for the persistent one.
    refine iff_of_false ?_ fun h => h.1 hshared.symm
    dsimp only
    rw [dropClient, if_pos hshared]
    intro hagree
    have hslots := congrArg Slots.persistentFd hagree.1
    have hstop : ∀ s, (stopWhenDone s).slots = s.slots := by
      intro s
      obtain ⟨_, hshape⟩ := stopWhenDone_shape s
      rw [hshape]
    have hpromote : (promoteQueued (expireInactive s) add).slots.persistentFd =
        s.slots.persistentFd := by
      rw [promoteQueued]
      split
      · cases add <;> rfl
      · rfl
    rw [hstop, hpromote] at hslots
    exact hbusy (hshared.trans hslots.symm)
  | inr hne =>
    dsimp only
    have hdrop : (dropClient s s.slots.nonPersistentFd).slots = s.slots := rfl
    rw [hdrop, if_neg hne, if_pos rfl, ← expireInactive, and_iff_right hne.symm]
    split
    · rename_i hrefused
      refine iff_of_true (Agree.refl _) ?_
      rintro ⟨_, _, hqueue⟩
      have hpos : 0 < s.slots.nonPersistentQueue.count := hrefused.1
      rcases hqueue with hzero | ⟨_, hadd⟩
      · omega
      · exact absurd (hadd.symm.trans hrefused.2) (by decide)
    · rename_i hkept
      exact (agree_stopWhenDone_iff _).trans (not_congr (done_promoteQueued_iff s add hkept))

/-- The inactivity close and the EOF branch leave the same state exactly when the two
slots hold different numbers and the connection is not the last client of a loop that
still runs. -/
theorem finish_copies_agree_iff (s : State) {batch : Option (List Fd)} {currentTime : Timeval}
    (eventTime : Timeval) (answers : Answers) (hidle : ¬IdleStop s batch currentTime)
    (hinactive : Inactive s currentTime) (hserver : s.slots.nonPersistentFd ≠ s.serverFd)
    (hend : answers.recv = .eof ∨ answers.recv = .error) :
    Agree (epollWait s batch currentTime eventTime answers.add)
        (handleEvent s s.slots.nonPersistentFd answers) ↔
      s.slots.persistentFd ≠ s.slots.nonPersistentFd ∧ ¬LastLeaves s answers.add := by
  have hcopy := agree_epollWait eventTime answers.add hidle hinactive
  have hclose : handleEvent s s.slots.nonPersistentFd answers =
      closeClient s s.slots.nonPersistentFd answers.time answers.add := by
    rw [handleEvent, if_neg hserver, clientEvent]
    rcases hend with h | h <;> rw [h]
  rw [hclose, ← agree_closeClient_iff hinactive.1 answers.time]
  exact ⟨hcopy.trans, hcopy.symm.trans⟩

/-- The persistent client leaves, then the other one, silent for ten seconds. -/
def silentLast : List Input :=
  [ready [3] 0, accepts 4 true 0, ready [3] 0, accepts 5 true 0, ready [4] 1,
    receives .eof true 1]

theorem permitted_silentLast : Along step Permitted freshStart silentLast := by
  with_unfolding_all decide

def silentLastRun : Run := ⟨freshStart, silentLast, initial_freshStart, permitted_silentLast⟩

def endOfFile : Answers := ⟨none, .eof, true, instant 10, instant 10⟩

theorem agree_silentLast :
    Agree (epollWait silentLastRun.final (some []) (instant 10) (instant 10) true)
        (handleEvent silentLastRun.final silentLastRun.final.slots.nonPersistentFd endOfFile) ↔
      silentLastRun.final.slots.persistentFd ≠ silentLastRun.final.slots.nonPersistentFd ∧
        ¬LastLeaves silentLastRun.final true :=
  finish_copies_agree_iff silentLastRun.final (instant 10) endOfFile
    (by with_unfolding_all decide) (by with_unfolding_all decide) (by with_unfolding_all decide)
    (.inl rfl)

theorem disagree_silentLast : Inactive silentLastRun.final (instant 10) ∧
    (epollWait silentLastRun.final (some []) (instant 10) (instant 10) true).running = true ∧
    (handleEvent silentLastRun.final 5 endOfFile).running = false ∧
    ¬Agree (epollWait silentLastRun.final (some []) (instant 10) (instant 10) true)
      (handleEvent silentLastRun.final silentLastRun.final.slots.nonPersistentFd endOfFile) := by
  have hwait : (epollWait silentLastRun.final (some []) (instant 10) (instant 10) true).running =
      true := by with_unfolding_all decide
  have heof : (handleEvent silentLastRun.final silentLastRun.final.slots.nonPersistentFd
      endOfFile).running = false := by with_unfolding_all decide
  refine ⟨by with_unfolding_all decide, hwait, by with_unfolding_all decide, ?_⟩
  rintro ⟨_, _, _, _, _, _, _, hrunning⟩
  rw [hwait, heof] at hrunning
  exact absurd hrunning (by decide)

end ConnectionOrder.ServerEpx3
