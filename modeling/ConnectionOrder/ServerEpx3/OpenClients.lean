import ConnectionOrder.ServerEpx3.Runs
import Mathlib.Data.Finset.Card
import Mathlib.Tactic.Linarith

/-!
# active_clients and the open client sockets

Every decrement of active_clients goes with a close. The counter stays right as
long as no descriptor is closed that is already closed; each such close makes it
one too small for good.
-/

namespace ConnectionOrder.ServerEpx3

open Machine

def Balanced (s : State) : Prop := s.activeClients = s.kernel.sockets.card

/-- The descriptors an action closes are still open: the connection that ends
(which a stale event or a stale slot may name after it was closed), and the
queued connection whose promotion is refused. -/
def ClosesOpen (s : State) (i : Input) : Prop :=
  match action s i with
  | .leave _ => s.slots.persistentFd ∈ s.kernel.sockets
  | .stray fd => fd ∈ s.kernel.sockets
  | .finish => s.slots.nonPersistentFd ∈ s.kernel.sockets ∧
      (i.add = false → ∀ h : 0 < s.slots.nonPersistentQueue.count,
        (s.slots.nonPersistentQueue.front h).fd ∈ s.kernel.sockets.erase s.slots.nonPersistentFd)
  | _ => True

/-- Handling an event clears the running flag only once no client is open. -/
def StopsWhenDone (s : State) (i : Input) : Prop :=
  ∀ answers, i = .event answers → s.running = true → (step s i).running = false →
    (step s i).kernel.sockets = ∅

/-- Open sockets that active_clients does not count. -/
def uncounted (s : State) : Int := s.kernel.sockets.card - s.activeClients

theorem balanced_iff (s : State) : Balanced s ↔ uncounted s = 0 := by
  rw [Balanced, uncounted]
  omega

theorem card_erase_sub (sockets : Finset Fd) (fd : Fd) (n : Int) :
    ((sockets.erase fd).card : Int) - (n - 1) =
      sockets.card - n + if fd ∈ sockets then 0 else 1 := by
  split
  · rename_i hmem
    have hcard := Finset.card_erase_add_one hmem
    omega
  · rename_i hmem
    rw [Finset.erase_eq_of_notMem hmem]
    omega

theorem uncounted_dropClient (s : State) (fd : Fd) :
    uncounted (dropClient s fd) = uncounted s + if fd ∈ s.kernel.sockets then 0 else 1 := by
  rw [uncounted, dropClient]
  rw [Kernel.close_delete]
  exact card_erase_sub s.kernel.sockets fd s.activeClients

theorem uncounted_accept (s : State) {fd : Fd} (h : fd ∉ s.kernel.sockets) :
    uncounted { s with kernel := s.kernel.accept fd, activeClients := s.activeClients + 1 } =
      uncounted s := by
  have hcard := Finset.card_insert_of_notMem h
  simp only [uncounted]
  rw [Kernel.sockets_accept, hcard]
  push_cast
  omega

theorem uncounted_registerClient (s : State) {fd : Fd} (h : fd ∈ s.kernel.sockets) (add : Bool) :
    uncounted (registerClient s fd add) = uncounted s := by
  rw [registerClient]
  split
  · rfl
  · have hdrop := card_erase_sub s.kernel.sockets fd s.activeClients
    rw [if_pos h, add_zero] at hdrop
    exact hdrop

theorem uncounted_placeClient (s : State) {fd : Fd} (h : fd ∈ s.kernel.sockets)
    (connectTime : Timeval) (add : Bool) :
    uncounted (placeClient s fd connectTime add) = uncounted s := by
  rw [placeClient]
  split
  · exact uncounted_registerClient { s with slots := { s.slots with persistentFd := fd } } h add
  · split
    · exact uncounted_registerClient { s with slots := { s.slots with
        nonPersistentFd := fd
        nonPersistentConnectTime := connectTime } } h add
    · split
      · rfl
      · have hdrop := card_erase_sub s.kernel.sockets fd s.activeClients
        rw [if_pos h, add_zero] at hdrop
        exact hdrop

theorem uncounted_demote (s : State) {fd : Fd} (h : fd ∈ s.kernel.sockets) :
    uncounted (demote s fd) = uncounted s := by
  rw [demote]
  split
  · rfl
  · split
    · rfl
    · have hdrop := uncounted_dropClient s fd
      rw [if_pos h, add_zero] at hdrop
      exact hdrop

theorem uncounted_readData (s : State) {fd : Fd} (h : fd ∈ s.kernel.sockets)
    (chunk : Chunk bufferSize) (time endTime : Timeval) :
    uncounted (readData s fd chunk time endTime) = uncounted s := by
  obtain ⟨_, _, _, _, hshape⟩ := readData_shape s fd chunk time endTime
  rw [hshape]
  change uncounted (if Misidentified s fd chunk then demote s fd else s) = uncounted s
  split
  · exact uncounted_demote s h
  · rfl

/-- One if the promotion closes a queued descriptor that is not open. -/
def badPromotion (s : State) (add : Bool) : Int :=
  if h : 0 < s.slots.nonPersistentQueue.count then
    if add = true ∨ (s.slots.nonPersistentQueue.front h).fd ∈ s.kernel.sockets then 0 else 1
  else 0

theorem uncounted_promoteQueued (s : State) (add : Bool) :
    uncounted (promoteQueued s add) = uncounted s + badPromotion s add := by
  rw [promoteQueued, badPromotion]
  split
  · cases add with
    | true => simp [uncounted]
    | false => simpa [uncounted] using card_erase_sub s.kernel.sockets _ s.activeClients
  · rw [add_zero]

theorem badPromotion_nonneg (s : State) (add : Bool) : 0 ≤ badPromotion s add := by
  rw [badPromotion]
  split_ifs <;> decide

theorem badPromotion_eq_zero_iff (s : State) (add : Bool) :
    badPromotion s add = 0 ↔ (add = false → ∀ h : 0 < s.slots.nonPersistentQueue.count,
      (s.slots.nonPersistentQueue.front h).fd ∈ s.kernel.sockets) := by
  rw [badPromotion]
  cases add with
  | true => simp
  | false => split_ifs <;> simp_all

theorem uncounted_expireInactive (s : State) : uncounted (expireInactive s) =
    uncounted s + if s.slots.nonPersistentFd ∈ s.kernel.sockets then 0 else 1 :=
  uncounted_dropClient s s.slots.nonPersistentFd

theorem uncounted_alike {s s' : State} (h : Alike s s') : uncounted s' = uncounted s := by
  obtain ⟨_, _, _, rfl⟩ := h
  rfl

theorem balanced_step_iff {s : State} {i : Input} (hp : Permitted s i) (h : Balanced s) :
    Balanced (step s i) ↔ ClosesOpen s i := by
  rw [balanced_iff] at h
  rw [balanced_iff, uncounted_alike (step_alike s i)]
  rw [ClosesOpen]
  cases ha : action s i with
  | quiet => simp [perform, h]
  | place fd connectTime =>
    obtain ⟨_, _, hfresh⟩ := permitted_place hp ha
    have hopen : fd ∈ (s.kernel.accept fd).sockets := Finset.mem_insert_self _ _
    simp only [perform, iff_true]
    have haccept := (uncounted_accept s hfresh).trans h
    exact (uncounted_placeClient _ hopen connectTime i.add).trans haccept
  | data fd chunk time endTime =>
    simp only [perform, iff_true]
    rw [uncounted_readData s (permitted_data hp ha), h]
  | leave time =>
    change uncounted (dropClient s s.slots.persistentFd) = 0 ↔ _
    rw [uncounted_dropClient, h, zero_add]
    split <;> simp_all
  | stray fd =>
    change uncounted (dropClient s fd) = 0 ↔ _
    rw [uncounted_dropClient, h, zero_add]
    split <;> simp_all
  | finish =>
    change uncounted (promoteQueued (expireInactive s) i.add) = 0 ↔ _
    rw [uncounted_promoteQueued, uncounted_expireInactive, h, zero_add]
    have hbad := badPromotion_eq_zero_iff (expireInactive s) i.add
    have hpos := badPromotion_nonneg (expireInactive s) i.add
    have hkernel : (expireInactive s).kernel.sockets =
        s.kernel.sockets.erase s.slots.nonPersistentFd := by
      simp [expireInactive, finishNonPersistent, dropClient]
    rw [hkernel] at hbad
    change _ ↔ (i.add = false → ∀ h : 0 < s.slots.nonPersistentQueue.count,
      (s.slots.nonPersistentQueue.front h).fd ∈ _) at hbad
    dsimp only
    rw [← hbad]
    split
    · simp_all
    · constructor
      · intro hzero
        omega
      · rintro ⟨hmem, _⟩
        exact absurd hmem ‹_›

theorem activeClients_stopWhenDone {s : State} (hrun : s.running = true)
    (h : (stopWhenDone s).running = false) : (stopWhenDone s).activeClients = 0 := by
  rw [stopWhenDone] at h ⊢
  split
  · rename_i hdone
    exact hdone.1
  · rename_i hdone
    rw [if_neg hdone, hrun] at h
    cases h

theorem activeClients_closeClient {s : State} {fd : Fd} {time : Timeval} {add : Bool}
    (hrun : s.running = true) (h : (closeClient s fd time add).running = false) :
    (closeClient s fd time add).activeClients = 0 := by
  have hpromote : (promoteQueued (finishNonPersistent (dropClient s fd)) add).running = true := by
    obtain ⟨_, _, _, _, _, hshape⟩ :=
      promoteQueued_shape (finishNonPersistent (dropClient s fd)) add
    rw [hshape]
    exact hrun
  rw [closeClient] at h ⊢
  dsimp only at h ⊢
  split_ifs at h ⊢
  · exact activeClients_stopWhenDone hrun h
  · rw [hpromote] at h
    cases h
  · exact activeClients_stopWhenDone hpromote h
  · exact activeClients_stopWhenDone hrun h

theorem activeClients_of_stop {s : State} {answers : Answers} (hrun : s.running = true)
    (h : (step s (.event answers)).running = false) :
    (step s (.event answers)).activeClients = 0 := by
  simp only [step] at h ⊢
  cases hpend : s.pending with
  | nil =>
    rw [hpend] at h
    rw [hrun] at h
    cases h
  | cons fd rest =>
    rw [hpend] at h
    simp only [handleEvent] at h ⊢
    split_ifs at h ⊢
    · rw [acceptClient] at h
      cases hacc : answers.accept with
      | none =>
        rw [hacc] at h
        rw [hrun] at h
        cases h
      | some client =>
        rw [hacc] at h
        have hkept := (loop_perform { s with pending := rest } answers.add
          (.place client answers.time)).2.1
        rw [perform] at hkept
        rw [hkept, hrun] at h
        cases h
    · rw [clientEvent] at h ⊢
      cases hrecv : answers.recv with
      | data chunk =>
        rw [hrecv] at h
        have hkept := (loop_perform { s with pending := rest } answers.add
          (.data fd chunk answers.time answers.endTime)).2.1
        rw [perform] at hkept
        rw [hkept, hrun] at h
        cases h
      | again =>
        rw [hrecv] at h
        rw [hrun] at h
        cases h
      | eof =>
        rw [hrecv] at h
        exact activeClients_closeClient hrun h
      | error =>
        rw [hrecv] at h
        exact activeClients_closeClient hrun h

/-- active_clients counts the open client sockets throughout a run, and an event
stops the server only with no client open, exactly when no step closes a
descriptor that is already closed. -/
theorem activeClients_exact_iff (x : Run) :
    (x.Always Balanced ∧ x.EachStep StopsWhenDone) ↔ x.EachStep ClosesOpen := by
  have hbalance : x.Always Balanced ↔ x.EachStep ClosesOpen := by
    apply x.always_iff_eachStep (J := fun _ => True)
    · rintro s ⟨_, _, _, _, _, rfl⟩
      exact ⟨trivial, rfl⟩
    · intro _ _ _ _ _ _
      trivial
    · intro s i hp _ h
      exact balanced_step_iff hp h
  rw [hbalance]
  refine ⟨fun h => h.1, fun h => ⟨h, ?_⟩⟩
  -- A stop needs active_clients = 0, and the counter is exact.
  have halways := hbalance.mpr h
  rw [Execution.eachStep_iff]
  intro n hn answers hi hrun hstop
  have hafter := halways (n + 1)
  rw [x.stateAt_succ hn, Balanced] at hafter
  rw [hi] at hstop hafter ⊢
  rw [activeClients_of_stop hrun hstop] at hafter
  exact Finset.card_eq_zero.mp (by omega)

/-- Connection 5 is closed for inactivity after its first data arrived; its event
is still in the batch and is handled as an error of a client. -/
def staleEvent : List Input :=
  [ready [3] 0, accepts 4 true 0, ready [3] 0, accepts 5 true 0,
    ready [5] 10, receives .error true 10]

theorem permitted_staleEvent : Along step Permitted freshStart staleEvent := by
  with_unfolding_all decide

def staleEventRun : Run := ⟨freshStart, staleEvent, initial_freshStart, permitted_staleEvent⟩

theorem activeClients_staleEvent : staleEventRun.EachStep AddObeyed ∧
    ¬(staleEventRun.Always Balanced ∧ staleEventRun.EachStep StopsWhenDone) ∧
    staleEventRun.final.activeClients = 0 ∧ staleEventRun.final.running = false ∧
    staleEventRun.final.kernel.sockets = {4} := by
  have hactive : staleEventRun.final.activeClients = 0 := by with_unfolding_all decide
  have hsockets : staleEventRun.final.kernel.sockets = {4} := by with_unfolding_all decide
  refine ⟨?_, ?_, hactive, by with_unfolding_all decide, hsockets⟩
  · exact (by with_unfolding_all decide : Along step AddObeyed freshStart staleEvent)
  · rintro ⟨hbalanced, _⟩
    have hfinal := hbalanced.final
    rw [Balanced, hactive, hsockets] at hfinal
    cases hfinal

end ConnectionOrder.ServerEpx3
