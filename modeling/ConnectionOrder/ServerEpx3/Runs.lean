import ConnectionOrder.Machine
import ConnectionOrder.ServerEpx3.Loop

/-!
# Runs of server_epx3

What the loop and the kernel allow, and what one step can do. Up to the
bookkeeping of the loop (the batch, the running flag, the time of the last event)
a step performs one of six actions, decided by the state before it.
-/

namespace ConnectionOrder.ServerEpx3

open Machine

def Initial (s : State) : Prop :=
  ∃ serverFd lastEventTime queue statsArray,
    0 ≤ serverFd ∧ s = start serverFd lastEventTime queue statsArray

/-- epoll_wait is called only while running and with no event left; a batch has
at most one event for each registered descriptor. accept returns a descriptor
that is not open, recv on a closed one fails. -/
def Permitted (s : State) : Input → Prop
  | .wait batch _ _ _ => s.running = true ∧ s.pending = [] ∧
      ∀ fds ∈ batch, fds.Nodup ∧ fds.length ≤ maxEvents ∧ ∀ fd ∈ fds, fd ∈ s.kernel.registered
  | .event answers =>
    match s.pending with
    | [] => False
    | eventFd :: _ =>
      if eventFd = s.serverFd then
        ∀ fd ∈ answers.accept, 0 ≤ fd ∧ fd ≠ s.serverFd ∧ fd ∉ s.kernel.sockets
      else eventFd ∉ s.kernel.sockets → answers.recv.isError = true
  | .signal => True

instance (s : State) : (i : Input) → Decidable (Permitted s i)
  | .wait _ _ _ _ => inferInstanceAs (Decidable (_ ∧ _ ∧ _))
  | .event answers => by
    unfold Permitted
    cases s.pending with
    | nil => exact .isFalse id
    | cons eventFd rest => exact inferInstanceAs (Decidable (ite _ _ _))
  | .signal => .isTrue trivial

abbrev Run := Execution step Initial Permitted

inductive Action where
  | quiet
  | place (fd : Fd) (connectTime : Timeval)
  | data (fd : Fd) (chunk : Chunk bufferSize) (time endTime : Timeval)
  | leave (time : Timeval)
  | finish
  | stray (fd : Fd)

def clientAction (s : State) (eventFd : Fd) (answers : Answers) : Action :=
  match answers.recv with
  | .data chunk => .data eventFd chunk answers.time answers.endTime
  | .again => .quiet
  | .eof | .error =>
    if eventFd = s.slots.persistentFd then .leave answers.time
    else if eventFd = s.slots.nonPersistentFd then .finish
    else .stray eventFd

/-- `finish` ends the non-persistent connection, by inactivity or by EOF; `leave`
ends the persistent one; `stray` closes a descriptor that is in neither slot. -/
def action (s : State) : Input → Action
  | .wait batch currentTime _ _ =>
    if IdleStop s batch currentTime then .quiet
    else if Inactive s currentTime then .finish
    else .quiet
  | .event answers =>
    match s.pending with
    | [] => .quiet
    | eventFd :: _ =>
      if eventFd = s.serverFd then
        match answers.accept with
        | none => .quiet
        | some fd => .place fd answers.time
      else clientAction s eventFd answers
  | .signal => .quiet

def leavePersistent (s : State) (time : Timeval) : State :=
  { dropClient s s.slots.persistentFd with
    clocks := { s.clocks with conn1End := time, conn1Started := false }
    slots := { s.slots with persistentFd := -1 } }

def perform (s : State) (add : Bool) : Action → State
  | .quiet => s
  | .place fd connectTime =>
    placeClient { s with kernel := s.kernel.accept fd, activeClients := s.activeClients + 1 }
      fd connectTime add
  | .data fd chunk time endTime => readData s fd chunk time endTime
  | .leave time => leavePersistent s time
  | .finish => promoteQueued (expireInactive s) add
  | .stray fd => dropClient s fd

/-- Equal up to the bookkeeping of the loop. -/
def Alike (s s' : State) : Prop :=
  ∃ running pending lastEventTime, s' = { s with
    running := running
    pending := pending
    clocks := { s.clocks with lastEventTime := lastEventTime } }

theorem Alike.refl (s : State) : Alike s s := ⟨s.running, s.pending, s.clocks.lastEventTime, rfl⟩

theorem Alike.trans {s t u : State} (h : Alike s t) (h' : Alike t u) : Alike s u := by
  obtain ⟨_, _, _, rfl⟩ := h
  obtain ⟨running, pending, time, rfl⟩ := h'
  exact ⟨running, pending, time, rfl⟩

theorem stopWhenDone_shape (s : State) :
    ∃ running, stopWhenDone s = { s with running := running } := by
  rw [stopWhenDone]
  split
  · exact ⟨false, rfl⟩
  · exact ⟨s.running, rfl⟩

theorem alike_stopWhenDone (s : State) : Alike s (stopWhenDone s) := by
  obtain ⟨running, hshape⟩ := stopWhenDone_shape s
  exact ⟨running, s.pending, s.clocks.lastEventTime, hshape⟩

theorem noteEvents_shape (s : State) (batch : Option (List Fd)) (eventTime : Timeval) :
    ∃ lastEventTime, noteEvents s batch eventTime =
      { s with clocks := { s.clocks with lastEventTime := lastEventTime } } := by
  rw [noteEvents]
  split
  · exact ⟨s.clocks.lastEventTime, rfl⟩
  · exact ⟨eventTime, rfl⟩

theorem alike_noteEvents (s : State) (batch : Option (List Fd)) (eventTime : Timeval) :
    Alike s (noteEvents s batch eventTime) := by
  obtain ⟨lastEventTime, hshape⟩ := noteEvents_shape s batch eventTime
  exact ⟨s.running, s.pending, lastEventTime, hshape⟩

theorem Alike.promote {s s' : State} (h : Alike s s') (add : Bool) :
    Alike (promoteQueued s add) (promoteQueued s' add) := by
  obtain ⟨running, pending, time, rfl⟩ := h
  refine ⟨running, pending, time, ?_⟩
  unfold promoteQueued
  dsimp only
  split
  · split <;> rfl
  · rfl

theorem Alike.expire {s s' : State} (h : Alike s s') :
    Alike (expireInactive s) (expireInactive s') := by
  obtain ⟨running, pending, time, rfl⟩ := h
  exact ⟨running, pending, time, rfl⟩

theorem Alike.place {s s' : State} (h : Alike s s') (fd : Fd) (connectTime : Timeval) (add : Bool) :
    Alike (placeClient s fd connectTime add) (placeClient s' fd connectTime add) := by
  obtain ⟨running, pending, time, rfl⟩ := h
  refine ⟨running, pending, time, ?_⟩
  unfold placeClient registerClient
  dsimp only
  split_ifs <;> rfl

theorem Alike.demote {s s' : State} (h : Alike s s') (fd : Fd) :
    Alike (demote s fd) (demote s' fd) := by
  obtain ⟨running, pending, time, rfl⟩ := h
  refine ⟨running, pending, time, ?_⟩
  unfold ServerEpx3.demote
  dsimp only
  split_ifs <;> rfl

theorem Alike.countData {s s' : State} (h : Alike s s') (fd : Fd) (n : Nat)
    (time endTime : Timeval) :
    Alike (countData s fd n time endTime) (countData s' fd n time endTime) := by
  obtain ⟨running, pending, last, rfl⟩ := h
  refine ⟨running, pending, last, ?_⟩
  unfold ServerEpx3.countData pairPersistent pairNonPersistent tallyPersistent tallyNonPersistent
  dsimp only
  split_ifs <;> rfl

theorem Alike.readData {s s' : State} (h : Alike s s') (fd : Fd) (chunk : Chunk bufferSize)
    (time endTime : Timeval) :
    Alike (readData s fd chunk time endTime) (readData s' fd chunk time endTime) := by
  have hmis : Misidentified s' fd chunk ↔ Misidentified s fd chunk := by
    obtain ⟨_, _, _, rfl⟩ := h
    rfl
  have hrej : DemotionRejected s' ↔ DemotionRejected s := by
    obtain ⟨_, _, _, rfl⟩ := h
    rfl
  simp only [ServerEpx3.readData]
  simp only [hmis, hrej]
  split
  · split
    · exact h.demote fd
    · exact (h.demote fd).countData fd chunk.length time endTime
  · exact h.countData fd chunk.length time endTime

theorem alike_pending (s : State) (fds : List Fd) : Alike s { s with pending := fds } :=
  ⟨s.running, fds, s.clocks.lastEventTime, rfl⟩

theorem epollWait_alike (s : State) (batch : Option (List Fd)) (currentTime eventTime : Timeval)
    (add : Bool) : Alike (perform s add (action s (.wait batch currentTime eventTime add)))
      (epollWait s batch currentTime eventTime add) := by
  have hnote := alike_noteEvents s batch eventTime
  have hinactive : Inactive (noteEvents s batch eventTime) currentTime ↔
      Inactive s currentTime := by
    obtain ⟨_, _, _, h⟩ := hnote
    rw [h]
    rfl
  rw [epollWait, action]
  simp only [hinactive]
  split
  · exact ⟨false, s.pending, s.clocks.lastEventTime, rfl⟩
  · split
    · split
      · exact hnote.expire.promote add
      · exact (hnote.expire.promote add).trans (alike_pending _ _)
    · exact hnote.trans (alike_pending _ _)

theorem Alike.close {s s' : State} (h : Alike s s') (eventFd : Fd) (time : Timeval) (add : Bool) :
    Alike (perform s add (if eventFd = s.slots.persistentFd then .leave time
        else if eventFd = s.slots.nonPersistentFd then .finish else .stray eventFd))
      (closeClient s' eventFd time add) := by
  have hdrop : Alike (dropClient s eventFd) (dropClient s' eventFd) := by
    obtain ⟨running, pending, last, rfl⟩ := h
    exact ⟨running, pending, last, rfl⟩
  have hslots : (dropClient s' eventFd).slots = s.slots := by
    obtain ⟨_, _, _, rfl⟩ := h
    rfl
  rw [closeClient]
  dsimp only
  simp only [hslots]
  split
  · rename_i hfd
    subst hfd
    obtain ⟨running, pending, last, rfl⟩ := h
    exact Alike.trans ⟨running, pending, last, rfl⟩ (alike_stopWhenDone _)
  · split
    · rename_i hfd
      have hexpire : Alike (expireInactive s) (finishNonPersistent (dropClient s' eventFd)) := by
        obtain ⟨running, pending, last, rfl⟩ := h
        rw [hfd]
        exact ⟨running, pending, last, rfl⟩
      split
      · exact hexpire.promote add
      · exact (hexpire.promote add).trans (alike_stopWhenDone _)
    · exact hdrop.trans (alike_stopWhenDone _)

/-- What one step can do. -/
theorem step_alike (s : State) (i : Input) : Alike (perform s i.add (action s i)) (step s i) := by
  cases i with
  | wait batch currentTime eventTime add =>
    exact epollWait_alike s batch currentTime eventTime add
  | signal => exact ⟨false, s.pending, s.clocks.lastEventTime, rfl⟩
  | event answers =>
    simp only [action, step, Input.add]
    cases hp : s.pending with
    | nil => exact Alike.refl s
    | cons eventFd rest =>
      -- Taking the event off the batch is bookkeeping.
      have hrest := alike_pending s rest
      simp only [handleEvent]
      split
      · rw [acceptClient]
        cases answers.accept with
        | none => exact hrest
        | some fd =>
          apply Alike.place
          exact ⟨s.running, rest, s.clocks.lastEventTime, rfl⟩
      · rw [clientAction, clientEvent]
        cases answers.recv with
        | data chunk => exact hrest.readData eventFd chunk answers.time answers.endTime
        | again => exact hrest
        | eof => exact hrest.close eventFd answers.time answers.add
        | error => exact hrest.close eventFd answers.time answers.add

/-- EPOLL_CTL_ADD succeeds only on an open descriptor that is not registered yet. -/
def AddObeyed (s : State) (i : Input) : Prop :=
  match action s i with
  | .place fd _ => i.add = true → (s.kernel.accept fd).Addable fd
  | .finish => i.add = true → ∀ h : 0 < s.slots.nonPersistentQueue.count,
      (s.kernel.close s.slots.nonPersistentFd).Addable (s.slots.nonPersistentQueue.front h).fd
  | _ => True

instance (s : State) (i : Input) : Decidable (AddObeyed s i) := by
  unfold AddObeyed
  match action s i with
  | .data .. => infer_instance
  | .quiet | .place .. | .leave _ | .finish | .stray _ => infer_instance

/-! ## What the parts of a step leave alone -/

theorem pairPersistent_shape (s : State) :
    ∃ pick nonPersistentCount both allNonPersistentCount allBoth, pairPersistent s =
      { s with
        pick := pick
        progress := { s.progress with nonPersistentCount := nonPersistentCount, both := both }
        totals := { s.totals with
          allNonPersistentCount := allNonPersistentCount
          allBoth := allBoth } } := by
  rw [pairPersistent]
  split_ifs <;> exact ⟨_, _, _, _, _, rfl⟩

theorem pairNonPersistent_shape (s : State) :
    ∃ pick persistentCount both allPersistentCount allBoth, pairNonPersistent s =
      { s with
        pick := pick
        progress := { s.progress with persistentCount := persistentCount, both := both }
        totals := { s.totals with
          allPersistentCount := allPersistentCount
          allBoth := allBoth } } := by
  rw [pairNonPersistent]
  split_ifs <;> exact ⟨_, _, _, _, _, rfl⟩

theorem countData_shape (s : State) (fd : Fd) (n : Nat) (time endTime : Timeval) :
    ∃ pick progress totals clocks, countData s fd n time endTime =
      { s with pick := pick, progress := progress, totals := totals, clocks := clocks } := by
  rw [countData, pairPersistent, pairNonPersistent, tallyPersistent, tallyNonPersistent]
  dsimp only
  split_ifs <;> exact ⟨_, _, _, _, rfl⟩

theorem slots_registerClient (s : State) (fd : Fd) (add : Bool) :
    (registerClient s fd add).slots = s.slots := by
  rw [registerClient]
  split <;> rfl

theorem placeClient_shape (s : State) (fd : Fd) (connectTime : Timeval) (add : Bool) :
    ∃ kernel activeClients rejected slots, placeClient s fd connectTime add =
      { s with
        kernel := kernel
        activeClients := activeClients
        rejected := rejected
        slots := slots } := by
  unfold placeClient registerClient
  dsimp only
  split_ifs <;> exact ⟨_, _, _, _, rfl⟩

theorem promoteQueued_shape (s : State) (add : Bool) :
    ∃ kernel activeClients slots nonperBytesRead nonperPackets, promoteQueued s add =
      { s with
        kernel := kernel
        activeClients := activeClients
        slots := slots
        progress := { s.progress with
          nonperBytesRead := nonperBytesRead
          nonperPackets := nonperPackets } } := by
  rw [promoteQueued]
  dsimp only
  split_ifs <;> exact ⟨_, _, _, _, _, rfl⟩

theorem demote_shape (s : State) (fd : Fd) :
    ∃ kernel activeClients rejected slots clocks nonperBytesRead nonperPackets perBytesRead
      perPackets allNonperBytes allNonpacktes, demote s fd =
      { s with
        kernel := kernel
        activeClients := activeClients
        rejected := rejected
        slots := slots
        clocks := clocks
        progress := { s.progress with
          nonperBytesRead := nonperBytesRead
          nonperPackets := nonperPackets
          perBytesRead := perBytesRead
          perPackets := perPackets }
        totals := { s.totals with
          allNonperBytes := allNonperBytes
          allNonpacktes := allNonpacktes } } := by
  rw [demote, dropClient]
  dsimp only
  split_ifs <;> exact ⟨_, _, _, _, _, _, _, _, _, _, _, rfl⟩

theorem readData_shape (s : State) (fd : Fd) (chunk : Chunk bufferSize) (time endTime : Timeval) :
    ∃ pick progress totals clocks, readData s fd chunk time endTime =
      { (if Misidentified s fd chunk then demote s fd else s) with
        pick := pick
        progress := progress
        totals := totals
        clocks := clocks } := by
  rw [readData]
  split
  · split
    · exact ⟨_, _, _, _, rfl⟩
    · exact countData_shape _ _ _ _ _
  · exact countData_shape _ _ _ _ _

theorem data_shape (s : State) (add : Bool) (fd : Fd) (chunk : Chunk bufferSize)
    (time endTime : Timeval) :
    ∃ kernel activeClients rejected pick slots progress totals clocks,
      perform s add (.data fd chunk time endTime) =
      { s with
        kernel := kernel
        activeClients := activeClients
        rejected := rejected
        pick := pick
        slots := slots
        progress := progress
        totals := totals
        clocks := clocks } := by
  obtain ⟨_, _, _, _, hshape⟩ := readData_shape s fd chunk time endTime
  obtain ⟨_, _, _, _, _, _, _, _, _, _, _, hdemote⟩ := demote_shape s fd
  rw [perform, hshape, hdemote]
  split <;> exact ⟨_, _, _, _, _, _, _, _, rfl⟩

theorem place_shape (s : State) (add : Bool) (fd : Fd) (connectTime : Timeval) :
    ∃ kernel activeClients rejected slots, perform s add (.place fd connectTime) =
      { s with
        kernel := kernel
        activeClients := activeClients
        rejected := rejected
        slots := slots } := by
  obtain ⟨_, _, _, _, hshape⟩ := placeClient_shape
    { s with kernel := s.kernel.accept fd, activeClients := s.activeClients + 1 } fd connectTime add
  exact ⟨_, _, _, _, hshape⟩

/-- An action leaves the loop itself alone. -/
theorem loop_perform (s : State) (add : Bool) (a : Action) :
    (perform s add a).serverFd = s.serverFd ∧ (perform s add a).running = s.running ∧
    (perform s add a).pending = s.pending := by
  cases a with
  | quiet | leave | stray => exact ⟨rfl, rfl, rfl⟩
  | place fd connectTime =>
    obtain ⟨_, _, _, _, hshape⟩ := place_shape s add fd connectTime
    rw [hshape]
    exact ⟨rfl, rfl, rfl⟩
  | finish =>
    obtain ⟨_, _, _, _, _, hshape⟩ := promoteQueued_shape (expireInactive s) add
    rw [perform, hshape]
    exact ⟨rfl, rfl, rfl⟩
  | data fd chunk time endTime =>
    obtain ⟨_, _, _, _, _, _, _, _, hshape⟩ := data_shape s add fd chunk time endTime
    rw [hshape]
    exact ⟨rfl, rfl, rfl⟩

/-! ## What a permitted input promises -/

/-- What brought an action about: a message of the descriptor at the front of the
batch, or the inactivity close before the batch. -/
def Caused (s : State) (i : Input) : Action → Prop
  | .quiet => True
  | .place fd _ => ∃ answers rest, i = .event answers ∧ s.pending = s.serverFd :: rest ∧
      answers.accept = some fd
  | .data fd chunk _ _ => ∃ answers rest, i = .event answers ∧ s.pending = fd :: rest ∧
      fd ≠ s.serverFd ∧ answers.recv = .data chunk
  | .leave _ => ∃ rest, s.pending = s.slots.persistentFd :: rest
  | .finish => s.slots.nonPersistentFd ≠ -1 ∨ ∃ rest, s.pending = s.slots.nonPersistentFd :: rest
  | .stray fd => (∃ rest, s.pending = fd :: rest) ∧
      fd ≠ s.slots.persistentFd ∧ fd ≠ s.slots.nonPersistentFd

theorem clientAction_caused {s : State} {eventFd : Fd} {rest : List Fd} (answers : Answers)
    (hpend : s.pending = eventFd :: rest) (hclient : eventFd ≠ s.serverFd) :
    Caused s (.event answers) (clientAction s eventFd answers) := by
  rw [clientAction]
  cases hrecv : answers.recv with
  | data chunk => exact ⟨answers, rest, rfl, hpend, hclient, hrecv⟩
  | again => trivial
  | eof | error =>
    dsimp only
    split_ifs with hper hnon
    · exact ⟨rest, hper ▸ hpend⟩
    · exact .inr ⟨rest, hnon ▸ hpend⟩
    · exact ⟨⟨rest, hpend⟩, hper, hnon⟩

theorem action_caused (s : State) (i : Input) : Caused s i (action s i) := by
  cases i with
  | signal => trivial
  | wait batch currentTime eventTime add =>
    rw [action]
    split_ifs with hidle hinactive
    · trivial
    · exact .inl hinactive.1
    · trivial
  | event answers =>
    rw [action]
    cases hpend : s.pending with
    | nil => trivial
    | cons eventFd rest =>
      dsimp only
      split_ifs with hserver
      · cases haccept : answers.accept with
        | none => trivial
        | some fd => exact ⟨answers, rest, rfl, hserver ▸ hpend, haccept⟩
      · exact clientAction_caused answers hpend hserver

theorem permitted_place {s : State} {i : Input} {fd : Fd} {connectTime : Timeval}
    (hp : Permitted s i) (ha : action s i = .place fd connectTime) :
    0 ≤ fd ∧ fd ≠ s.serverFd ∧ fd ∉ s.kernel.sockets := by
  have hcaused := action_caused s i
  rw [ha] at hcaused
  obtain ⟨answers, rest, rfl, hpend, haccept⟩ := hcaused
  simp only [Permitted, hpend, if_true] at hp
  exact hp fd haccept

theorem permitted_data {s : State} {i : Input} {fd : Fd} {chunk : Chunk bufferSize}
    {time endTime : Timeval} (hp : Permitted s i) (ha : action s i = .data fd chunk time endTime) :
    fd ∈ s.kernel.sockets := by
  have hcaused := action_caused s i
  rw [ha] at hcaused
  obtain ⟨answers, rest, rfl, hpend, hclient, hrecv⟩ := hcaused
  simp only [Permitted, hpend, if_neg hclient, hrecv] at hp
  by_contra hclosed
  cases hp hclosed

theorem pending_closeClient (s : State) (eventFd : Fd) (time : Timeval) (add : Bool) :
    (closeClient s eventFd time add).pending = s.pending := by
  have hstop : ∀ s, (stopWhenDone s).pending = s.pending := by
    intro s
    obtain ⟨_, hshape⟩ := stopWhenDone_shape s
    rw [hshape]
  have hpromote : ∀ s, (promoteQueued s add).pending = s.pending := by
    intro s
    obtain ⟨_, _, _, _, _, hshape⟩ := promoteQueued_shape s add
    rw [hshape]
  rw [closeClient]
  split_ifs
  · exact hstop _
  · exact hpromote _
  · exact (hstop _).trans (hpromote _)
  · exact hstop _

theorem pending_handleEvent (s : State) (eventFd : Fd) (answers : Answers) :
    (handleEvent s eventFd answers).pending = s.pending := by
  rw [handleEvent]
  split
  · rw [acceptClient]
    cases answers.accept with
    | none => rfl
    | some fd =>
      have hkept := (loop_perform s answers.add (.place fd answers.time)).2.2
      exact hkept
  · rw [clientEvent]
    cases answers.recv with
    | again => rfl
    | eof | error => exact pending_closeClient _ _ _ _
    | data chunk =>
      have hkept := (loop_perform s answers.add
        (.data eventFd chunk answers.time answers.endTime)).2.2
      exact hkept

theorem mem_pending_step {s : State} {i : Input} {fd : Fd} (hp : Permitted s i)
    (h : fd ∈ (step s i).pending) : fd ∈ s.pending ∨ fd ∈ s.kernel.registered := by
  cases i with
  | signal => exact .inl h
  | event answers =>
    simp only [step] at h
    cases hpend : s.pending with
    | nil =>
      rw [hpend] at h
      exact .inl (hpend ▸ h)
    | cons eventFd rest =>
      rw [hpend] at h
      dsimp only at h
      rw [pending_handleEvent] at h
      exact .inl (List.mem_cons_of_mem _ h)
  | wait batch currentTime eventTime add =>
    obtain ⟨_, hnone, hbatch⟩ := hp
    have hnew : fd ∈ batch.getD [] → fd ∈ s.kernel.registered := by
      cases batch with
      | none => exact fun hmem => absurd hmem List.not_mem_nil
      | some fds => exact (hbatch fds rfl).2.2 fd
    have hpromote : (promoteQueued (expireInactive (noteEvents s batch eventTime)) add).pending =
        s.pending := by
      have hnote : (noteEvents s batch eventTime).pending = s.pending := by
        obtain ⟨_, hshape⟩ := noteEvents_shape s batch eventTime
        rw [hshape]
      exact (loop_perform (noteEvents s batch eventTime) add .finish).2.2.trans hnote
    simp only [step, epollWait] at h
    split_ifs at h
    · exact .inl h
    · exact .inl (hpromote ▸ h)
    · exact .inr (hnew h)
    · exact .inr (hnew h)

/-! ## Open sockets -/

theorem mem_sockets_promoteQueued {s : State} {add : Bool} {fd : Fd}
    (h : fd ∈ (promoteQueued s add).kernel.sockets) : fd ∈ s.kernel.sockets := by
  rw [promoteQueued] at h
  split at h
  · cases add with
    | true => exact h
    | false => exact Finset.mem_of_mem_erase h
  · exact h

theorem mem_sockets_registerClient {s : State} {add : Bool} {client fd : Fd}
    (h : fd ∈ (registerClient s client add).kernel.sockets) : fd ∈ s.kernel.sockets := by
  rw [registerClient] at h
  split at h
  · exact h
  · exact Finset.mem_of_mem_erase h

theorem mem_sockets_placeClient {s : State} {add : Bool} {client fd : Fd} {connectTime : Timeval}
    (h : fd ∈ (placeClient s client connectTime add).kernel.sockets) : fd ∈ s.kernel.sockets := by
  rw [placeClient] at h
  split_ifs at h
  · have hold := mem_sockets_registerClient h
    exact hold
  · have hold := mem_sockets_registerClient h
    exact hold
  · exact h
  · exact Finset.mem_of_mem_erase h

theorem mem_sockets_dropClient {s : State} {client fd : Fd}
    (h : fd ∈ (dropClient s client).kernel.sockets) : fd ∈ s.kernel.sockets :=
  Finset.mem_of_mem_erase h

theorem mem_sockets_demote {s : State} {client fd : Fd}
    (h : fd ∈ (demote s client).kernel.sockets) : fd ∈ s.kernel.sockets := by
  rw [demote] at h
  split_ifs at h
  · exact h
  · exact h
  · exact mem_sockets_dropClient h

theorem mem_sockets_perform {s : State} {add : Bool} {a : Action} {fd : Fd}
    (h : fd ∈ (perform s add a).kernel.sockets) :
    fd ∈ s.kernel.sockets ∨ ∃ connectTime, a = .place fd connectTime := by
  cases a with
  | quiet => exact .inl h
  | place client connectTime =>
    rcases Finset.mem_insert.mp (mem_sockets_placeClient h) with rfl | hold
    · exact .inr ⟨connectTime, rfl⟩
    · exact .inl hold
  | data client chunk time endTime =>
    obtain ⟨_, _, _, _, hshape⟩ := readData_shape s client chunk time endTime
    simp only [perform, hshape] at h
    split at h
    · exact .inl (mem_sockets_demote h)
    · exact .inl h
  | leave time => exact .inl (mem_sockets_dropClient h)
  | finish =>
    have hold : fd ∈ (expireInactive s).kernel.sockets := mem_sockets_promoteQueued h
    exact .inl (mem_sockets_dropClient hold)
  | stray client => exact .inl (mem_sockets_dropClient h)

def SocketsNonneg (s : State) : Prop := ∀ fd ∈ s.kernel.sockets, 0 ≤ fd

theorem socketsNonneg_start {s : State} (h : Initial s) : SocketsNonneg s := by
  obtain ⟨_, _, _, _, _, rfl⟩ := h
  intro fd hfd
  exact absurd hfd (Finset.notMem_empty fd)

theorem socketsNonneg_step {s : State} {i : Input} (hp : Permitted s i) (h : SocketsNonneg s) :
    SocketsNonneg (step s i) := by
  intro fd hfd
  obtain ⟨_, _, _, halike⟩ := step_alike s i
  rw [halike] at hfd
  rcases mem_sockets_perform hfd with hold | ⟨connectTime, ha⟩
  · exact h fd hold
  · exact (permitted_place hp ha).1

theorem ne_sentinel {fd : Fd} (h : 0 ≤ fd) : fd ≠ -1 := by
  rintro rfl
  exact absurd h (by decide)

theorem ne_sentinel_of_open {s : State} {fd : Fd} (h : SocketsNonneg s)
    (hfd : fd ∈ s.kernel.sockets) : fd ≠ -1 := ne_sentinel (h fd hfd)

theorem sentinel_closed {s : State} (h : SocketsNonneg s) : (-1 : Fd) ∉ s.kernel.sockets :=
  fun hmem => ne_sentinel (h _ hmem) rfl

/-! ## Connection numbers -/

theorem numbers_perform (s : State) (add : Bool) (a : Action) :
    (perform s add a).kernel.conn =
      (match a with | .place fd _ => s.kernel.accept fd | _ => s.kernel).conn ∧
    (perform s add a).kernel.accepted =
      (match a with | .place fd _ => s.kernel.accept fd | _ => s.kernel).accepted := by
  cases a with
  | quiet | leave | stray => exact ⟨rfl, rfl⟩
  | place fd connectTime =>
    rw [perform, placeClient]
    split_ifs
    · cases add <;> exact ⟨rfl, rfl⟩
    · cases add <;> exact ⟨rfl, rfl⟩
    · exact ⟨rfl, rfl⟩
    · exact ⟨rfl, rfl⟩
  | data fd chunk time endTime =>
    obtain ⟨_, _, _, _, hshape⟩ := readData_shape s fd chunk time endTime
    rw [perform, hshape, demote]
    split_ifs <;> exact ⟨rfl, rfl⟩
  | finish =>
    rw [perform, promoteQueued]
    split_ifs <;> exact ⟨rfl, rfl⟩

def NumbersBounded (s : State) : Prop := ∀ fd, s.kernel.conn fd ≤ s.kernel.accepted

theorem numbersBounded_start {s : State} (h : Initial s) : NumbersBounded s := by
  obtain ⟨_, _, _, _, _, rfl⟩ := h
  intro fd
  exact Nat.le_refl 0

theorem numbersBounded_step {s : State} (i : Input) (h : NumbersBounded s) :
    NumbersBounded (step s i) := by
  intro fd
  obtain ⟨_, _, _, halike⟩ := step_alike s i
  obtain ⟨hconn, haccepted⟩ := numbers_perform s i.add (action s i)
  rw [halike]
  dsimp only
  rw [hconn, haccepted]
  cases action s i with
  | quiet | leave | stray | data | finish => exact h fd
  | place client connectTime =>
    rcases eq_or_ne fd client with rfl | hne
    · exact Nat.le_of_eq (Kernel.conn_accept_self _ _)
    · refine (Nat.le_of_eq (Kernel.conn_accept_of_ne _ hne)).trans ?_
      exact Nat.le_succ_of_le (h fd)

/-! ## Concrete runs -/

def instant (seconds : Int) : Timeval := ⟨seconds, 0⟩

def ready (fds : List Fd) (seconds : Int) : Input :=
  .wait (some fds) (instant seconds) (instant seconds) true

def accepts (fd : Fd) (add : Bool) (seconds : Int) : Input :=
  .event ⟨some fd, .again, add, instant seconds, instant seconds⟩

def receives (result : Recv bufferSize) (add : Bool) (seconds : Int) : Input :=
  .event ⟨none, result, add, instant seconds, instant seconds⟩

def chunkP : Chunk bufferSize := ⟨[80], by decide, by decide⟩

def chunkN : Chunk bufferSize := ⟨[78], by decide, by decide⟩

def freshStart : State :=
  start 3 (instant 0) (fun _ => ⟨-1, instant 0⟩) (fun _ => ConnectionStats.zero)

theorem initial_freshStart : Initial freshStart := ⟨3, _, _, _, by decide, rfl⟩

end ConnectionOrder.ServerEpx3
