import ConnectionOrder.ServerEpx3.Ledger

/-!
# What stops the loop

A signal, three minutes of empty waits, or a client's close after which active_clients
is zero and nobody waits. By the ledger the last condition is not that everybody has
gone: it is met with as many slots still named as clients left uncounted.
-/

namespace ConnectionOrder.ServerEpx3

open Machine

/-- The time of the last wait that returned an event or an error. -/
def activity (lastActive : Timeval) (_ : State) : Input → Timeval
  | .wait batch _ eventTime _ => if batch = some [] then lastActive else eventTime
  | .event _ | .signal => lastActive

/-- The event closes a client, and the loop goes on to its test. -/
def Closes (s : State) (answers : Answers) : Prop :=
  match action s (.event answers) with
  | .leave _ | .stray _ => True
  | .finish => ¬PromotionRefused s answers.add
  | .quiet | .place .. | .data .. => False

/-! ## The time of the last event -/

theorem lastEventTime_demote (s : State) (fd : Fd) :
    (demote s fd).clocks.lastEventTime = s.clocks.lastEventTime := by
  rw [demote]
  split_ifs <;> rfl

theorem lastEventTime_countData (s : State) (fd : Fd) (n : Nat) (time endTime : Timeval) :
    (countData s fd n time endTime).clocks.lastEventTime = s.clocks.lastEventTime := by
  rw [countData, pairPersistent, pairNonPersistent, tallyPersistent, tallyNonPersistent]
  dsimp only
  split_ifs <;> rfl

theorem lastEventTime_readData (s : State) (fd : Fd) (chunk : Chunk bufferSize)
    (time endTime : Timeval) :
    (readData s fd chunk time endTime).clocks.lastEventTime = s.clocks.lastEventTime := by
  rw [readData]
  split_ifs
  · exact lastEventTime_demote s fd
  · exact (lastEventTime_countData _ _ _ _ _).trans (lastEventTime_demote s fd)
  · exact lastEventTime_countData _ _ _ _ _

theorem lastEventTime_closeClient (s : State) (fd : Fd) (time : Timeval) (add : Bool) :
    (closeClient s fd time add).clocks.lastEventTime = s.clocks.lastEventTime := by
  have hstop : ∀ s, (stopWhenDone s).clocks = s.clocks := by
    intro s
    obtain ⟨_, hshape⟩ := stopWhenDone_shape s
    rw [hshape]
  have hpromote : ∀ s, (promoteQueued s add).clocks = s.clocks := by
    intro s
    obtain ⟨_, _, _, _, _, hshape⟩ := promoteQueued_shape s add
    rw [hshape]
  rw [closeClient]
  dsimp only
  split_ifs
  · rw [hstop]
    rfl
  · rw [hpromote]
    rfl
  · rw [hstop, hpromote]
    rfl
  · rw [hstop]
    rfl

theorem lastEventTime_handleEvent (s : State) (fd : Fd) (answers : Answers) :
    (handleEvent s fd answers).clocks.lastEventTime = s.clocks.lastEventTime := by
  rw [handleEvent]
  split
  · rw [acceptClient]
    cases answers.accept with
    | none => rfl
    | some client =>
      obtain ⟨_, _, _, _, hshape⟩ := place_shape s answers.add client answers.time
      rw [perform] at hshape
      dsimp only
      rw [hshape]
  · rw [clientEvent]
    cases answers.recv with
    | again => rfl
    | data chunk => exact lastEventTime_readData s fd chunk answers.time answers.endTime
    | eof | error => exact lastEventTime_closeClient s fd answers.time answers.add

theorem lastEventTime_epollWait (s : State) (batch : Option (List Fd))
    (currentTime eventTime : Timeval) (add : Bool) :
    (epollWait s batch currentTime eventTime add).clocks.lastEventTime =
      if batch = some [] then s.clocks.lastEventTime else eventTime := by
  have hnote : (noteEvents s batch eventTime).clocks.lastEventTime =
      if batch = some [] then s.clocks.lastEventTime else eventTime := by
    rw [noteEvents]
    split <;> rfl
  have hpromote : (promoteQueued (expireInactive (noteEvents s batch eventTime)) add).clocks =
      { (noteEvents s batch eventTime).clocks with conn2Started := false } := by
    obtain ⟨_, _, _, _, _, hshape⟩ :=
      promoteQueued_shape (expireInactive (noteEvents s batch eventTime)) add
    rw [hshape]
    rfl
  rw [← hnote, epollWait]
  split
  · rename_i hidle
    rw [noteEvents, if_pos hidle.1]
  · dsimp only
    split
    · split
      · rw [hpromote]
      · dsimp only
        rw [hpromote]
    · rfl

/-- last_event_time is the time of the last wait that returned something. -/
theorem lastEventTime_step (s : State) (i : Input) :
    (step s i).clocks.lastEventTime = activity s.clocks.lastEventTime s i := by
  cases i with
  | signal => rfl
  | wait batch currentTime eventTime add =>
    exact lastEventTime_epollWait s batch currentTime eventTime add
  | event answers =>
    simp only [step]
    cases s.pending with
    | nil => rfl
    | cons fd rest => exact lastEventTime_handleEvent { s with pending := rest } fd answers

theorem lastEventTime_run (x : Run) :
    x.final.clocks.lastEventTime = x.tracked activity x.start.clocks.lastEventTime := by
  apply x.history_induction (P := fun is =>
    (run step x.start is).clocks.lastEventTime =
      track step activity x.start.clocks.lastEventTime x.start is) rfl
  intro is i _ _ ih
  rw [run_snoc, track_snoc, lastEventTime_step, ih]

/-! ## The running flag -/

theorem running_stopWhenDone {s : State} (hrun : s.running = true) :
    (stopWhenDone s).running = false ↔ (stopWhenDone s).activeClients = 0 ∧
      (stopWhenDone s).slots.nonPersistentQueue.count = 0 := by
  rw [stopWhenDone]
  split
  · rename_i hdone
    exact iff_of_true rfl hdone
  · rename_i hmore
    exact iff_of_false (by rw [hrun]; exact Bool.noConfusion) hmore

theorem running_promoteQueued (s : State) (add : Bool) :
    (promoteQueued s add).running = s.running := by
  obtain ⟨_, _, _, _, _, hshape⟩ := promoteQueued_shape s add
  rw [hshape]

/-- The test is reached unless the close of the non-persistent connection ends in a
refused promotion. -/
theorem running_closeClient {s : State} (hrun : s.running = true) (fd : Fd) (time : Timeval)
    (add : Bool) :
    (closeClient s fd time add).running = false ↔
      ¬(fd ≠ s.slots.persistentFd ∧ fd = s.slots.nonPersistentFd ∧ PromotionRefused s add) ∧
      (closeClient s fd time add).activeClients = 0 ∧
      (closeClient s fd time add).slots.nonPersistentQueue.count = 0 := by
  have hslots : (dropClient s fd).slots = s.slots := rfl
  have hrefused : PromotionRefused (finishNonPersistent (dropClient s fd)) add ↔
      PromotionRefused s add := Iff.rfl
  rw [closeClient]
  dsimp only
  rw [hslots]
  split
  · rename_i hper
    refine (running_stopWhenDone ?_).trans (and_iff_right fun h => h.1 hper).symm
    exact hrun
  · rename_i hper
    split
    · rename_i hnon
      split
      · rename_i hgone
        rw [running_promoteQueued]
        refine iff_of_false ?_ fun h => h.1 ⟨hper, hnon, hrefused.mp hgone⟩
        have hsame : (finishNonPersistent (dropClient s fd)).running = s.running := rfl
        rw [hsame, hrun]
        exact Bool.noConfusion
      · rename_i hkept
        refine (running_stopWhenDone ?_).trans
          (and_iff_right fun h => hkept (hrefused.mpr h.2.2)).symm
        exact (running_promoteQueued _ add).trans hrun
    · rename_i hnon
      refine (running_stopWhenDone ?_).trans (and_iff_right fun h => hnon h.2.1).symm
      exact hrun

theorem closes_iff {s : State} {answers : Answers} {fd : Fd} {rest : List Fd}
    (hpend : s.pending = fd :: rest) (hclient : fd ≠ s.serverFd)
    (hend : answers.recv = .eof ∨ answers.recv = .error) :
    Closes s answers ↔ ¬(fd ≠ s.slots.persistentFd ∧ fd = s.slots.nonPersistentFd ∧
      PromotionRefused s answers.add) := by
  have haction : action s (.event answers) =
      if fd = s.slots.persistentFd then .leave answers.time
      else if fd = s.slots.nonPersistentFd then .finish else .stray fd := by
    rw [action, hpend]
    dsimp only
    rw [if_neg hclient, clientAction]
    rcases hend with h | h <;> rw [h]
  rw [Closes, haction]
  split_ifs with hper hnon
  · exact iff_of_true trivial fun h => h.1 hper
  · exact not_congr ⟨fun h => ⟨hper, hnon, h⟩, fun h => h.2.2⟩
  · exact iff_of_true trivial fun h => hnon h.2.1

theorem running_event {s : State} (hrun : s.running = true) (answers : Answers) :
    (step s (.event answers)).running = false ↔ Closes s answers ∧
      (step s (.event answers)).activeClients = 0 ∧
      (step s (.event answers)).slots.nonPersistentQueue.count = 0 := by
  have hquiet : ∀ s' : State, s'.running = true → ¬Closes s answers →
      (s'.running = false ↔ Closes s answers ∧ s'.activeClients = 0 ∧
        s'.slots.nonPersistentQueue.count = 0) := by
    intro s' hon hclose
    exact iff_of_false (by rw [hon]; exact Bool.noConfusion) fun h => hclose h.1
  simp only [step]
  cases hpend : s.pending with
  | nil =>
    apply hquiet s hrun
    rw [Closes, action, hpend]
    exact id
  | cons fd rest =>
    dsimp only
    rw [handleEvent]
    dsimp only
    split
    · rename_i hserver
      rw [acceptClient]
      cases haccept : answers.accept with
      | none =>
        apply hquiet _ hrun
        simp only [Closes, action, hpend, if_pos hserver, haccept, not_false_eq_true]
      | some client =>
        obtain ⟨_, _, _, _, hshape⟩ :=
          place_shape { s with pending := rest } answers.add client answers.time
        rw [perform] at hshape
        dsimp only
        apply hquiet
        · rw [hshape]
          exact hrun
        · simp only [Closes, action, hpend, if_pos hserver, haccept, not_false_eq_true]
    · rename_i hclient
      rw [clientEvent]
      cases hrecv : answers.recv with
      | again =>
        apply hquiet _ hrun
        simp only [Closes, action, hpend, if_neg hclient, clientAction, hrecv, not_false_eq_true]
      | data chunk =>
        have hkept := (loop_perform { s with pending := rest } answers.add
          (.data fd chunk answers.time answers.endTime)).2.1
        rw [perform] at hkept
        apply hquiet _ (hkept.trans hrun)
        simp only [Closes, action, hpend, if_neg hclient, clientAction, hrecv, not_false_eq_true]
      | eof =>
        rw [closes_iff hpend hclient (.inl hrecv)]
        exact running_closeClient (s := { s with pending := rest }) hrun fd answers.time answers.add
      | error =>
        rw [closes_iff hpend hclient (.inr hrecv)]
        exact running_closeClient (s := { s with pending := rest }) hrun fd answers.time answers.add

theorem running_epollWait {s : State} (hrun : s.running = true) (batch : Option (List Fd))
    (currentTime eventTime : Timeval) (add : Bool) :
    (epollWait s batch currentTime eventTime add).running = false ↔
      IdleStop s batch currentTime := by
  have hnote : (noteEvents s batch eventTime).running = true := by
    obtain ⟨_, hshape⟩ := noteEvents_shape s batch eventTime
    rw [hshape]
    exact hrun
  have hpromote : (promoteQueued (expireInactive (noteEvents s batch eventTime)) add).running =
      true := (running_promoteQueued _ add).trans hnote
  have hon : ∀ {running : Bool}, running = true → ¬running = false :=
    fun h => Bool.not_eq_false _ ▸ h
  rw [epollWait]
  split
  · rename_i hidle
    exact iff_of_true rfl hidle
  · rename_i hidle
    refine iff_of_false (hon ?_) hidle
    dsimp only
    split
    · split
      · exact hpromote
      · exact hpromote
    · exact hnote

/-- A step stops the running loop in three ways. The close that stops it leaves nobody in
the queue, and as many slots named as clients have been left uncounted. -/
theorem loop_stops_iff (x : Run) {i : Input} (hp : Permitted x.final i)
    (hrun : x.final.running = true) :
    (step x.final i).running = false ↔
      i = .signal ∨
      (∃ currentTime eventTime add, i = .wait (some []) currentTime eventTime add ∧
        noEventTimeout ≤
          timeDiff (x.tracked activity x.start.clocks.lastEventTime) currentTime) ∨
      ∃ answers, i = .event answers ∧ Closes x.final answers ∧
        (step x.final i).slots.nonPersistentQueue.count = 0 ∧
        held (step x.final i).slots = times Uncounted step x.start (x.inputs ++ [i]) := by
  cases i with
  | signal => exact iff_of_true rfl (.inl rfl)
  | wait batch currentTime eventTime add =>
    have hidle := running_epollWait hrun batch currentTime eventTime add
    rw [IdleStop, lastEventTime_run] at hidle
    refine hidle.trans ?_
    constructor
    · rintro ⟨rfl, hlong⟩
      exact .inr (.inl ⟨currentTime, eventTime, add, rfl, hlong⟩)
    · rintro (h | ⟨_, _, _, h, hlong⟩ | ⟨_, h, _⟩)
      · cases h
      · cases h
        exact ⟨rfl, hlong⟩
      · cases h
  | event answers =>
    have hclients := activeClients_behind (x.snoc (.event answers) hp)
    rw [Execution.snoc_final, Execution.times] at hclients
    have hzero : (step x.final (.event answers)).activeClients = 0 ↔
        held (step x.final (.event answers)).slots =
          times Uncounted step x.start (x.inputs ++ [.event answers]) := by
      rw [hclients]
      exact Int.sub_eq_zero
    refine (running_event hrun answers).trans ?_
    rw [hzero, and_comm (b := _ = 0)]
    constructor
    · intro h
      exact .inr (.inr ⟨answers, rfl, h⟩)
    · rintro (h | ⟨_, _, _, h, _⟩ | ⟨_, h, hclose⟩)
      · cases h
      · cases h
      · cases h
        exact hclose

/-- The persistent client left at one second; nothing has come since. -/
theorem stopped_silentLast : (step silentLastRun.final (ready [] 181)).running = false := by
  have hquiet : noEventTimeout ≤
      timeDiff (silentLastRun.tracked activity silentLastRun.start.clocks.lastEventTime)
        (instant 181) := by with_unfolding_all decide
  have hp : Permitted silentLastRun.final (ready [] 181) := by with_unfolding_all decide
  have hrun : silentLastRun.final.running = true := by with_unfolding_all decide
  exact (loop_stops_iff silentLastRun hp hrun).mpr (.inr (.inl ⟨_, _, _, rfl, hquiet⟩))

end ConnectionOrder.ServerEpx3
