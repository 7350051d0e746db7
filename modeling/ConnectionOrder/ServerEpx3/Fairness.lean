import ConnectionOrder.ServerEpx3.Queue

/-!
# Whose turn it is for the non-persistent slot

The slot is handed out at accept, at a demotion and at the two promotions, and
only the promotions look at the queue. The order is kept as long as the slot is
never empty while somebody waits.
-/

namespace ConnectionOrder.ServerEpx3

open Machine

def WorkConserving (slots : Slots) : Prop :=
  slots.nonPersistentFd = -1 → slots.nonPersistentQueue.count = 0

/-- The connections in the queue, by their numbers. -/
def waiting (k : Kernel) (slots : Slots) : List Nat := (queued slots).map k.conn

/-- The connection that begins to wait for the non-persistent slot: accepted while
the persistent slot is taken, or demoted from it. -/
def beginsToWait (s : State) (i : Input) : List Nat :=
  match action s i with
  | .place _ _ =>
    if s.slots.persistentFd = -1 then []
    else if s.slots.nonPersistentFd = -1 ∨ s.slots.nonPersistentQueue.count < maxNonPersistent then
      [s.kernel.accepted + 1]
    else []
  | .data fd chunk _ _ =>
    if Misidentified s fd chunk ∧ ¬DemotionRejected s then [s.kernel.conn fd] else []
  | _ => []

def takesSlot (s : State) (i : Input) : List Nat :=
  match action s i with
  | .place _ _ =>
    if s.slots.persistentFd ≠ -1 ∧ s.slots.nonPersistentFd = -1 then [s.kernel.accepted + 1]
    else []
  | .data fd chunk _ _ =>
    if Misidentified s fd chunk ∧ s.slots.nonPersistentFd = -1 then [s.kernel.conn fd] else []
  | .finish =>
    if h : 0 < s.slots.nonPersistentQueue.count then
      [s.kernel.conn (s.slots.nonPersistentQueue.front h).fd]
    else []
  | _ => []

/-- Of the connections that began to wait, in this order, the first ones have been
given the slot and the others are in the queue. -/
def InOrder (x : Run) : Prop :=
  x.observed beginsToWait = x.observed takesSlot ++ waiting x.final.kernel x.final.slots

/-- No accepted descriptor is one that the queue still holds, and a refused
promotion leaves nobody behind. -/
def Orderly (s : State) (i : Input) : Prop :=
  match action s i with
  | .place fd _ => fd ∉ queued s.slots
  | .finish => i.add = false → s.slots.nonPersistentQueue.count ≤ 1
  | _ => True

/-- What the environment promises about descriptors and numbers, in every state. -/
structure Numbered (s : State) : Prop where
  sockets : SocketsNonneg s
  queue : ∀ fd ∈ queued s.slots, 0 ≤ fd
  registered : ∀ fd ∈ s.kernel.registered, 0 ≤ fd
  pending : ∀ fd ∈ s.pending, 0 ≤ fd
  conn : NumbersBounded s

section Parts

variable {fd : Fd} {k : Kernel} {slots : Slots}

theorem queued_eq_nil (h : slots.nonPersistentQueue.count = 0) : queued slots = [] := by
  rw [queued, (ArrayQueue.toList_eq_nil_iff _).mpr h, List.map_nil]

/-- A new connection number shows in the queue exactly if its descriptor is there. -/
theorem waiting_accept_iff (slots : Slots) (hconn : k.conn fd ≤ k.accepted) :
    waiting k slots = waiting (k.accept fd) slots ↔ fd ∉ queued slots := by
  rw [waiting, waiting, List.map_inj_left]
  constructor
  · intro hall hmem
    have hsame := hall fd hmem
    rw [Kernel.conn_accept_self] at hsame
    omega
  · intro hnot other hother
    refine (Kernel.conn_accept_of_ne k ?_).symm
    rintro rfl
    exact hnot hother

theorem waiting_push (k : Kernel) (slots : Slots) (c : Connection)
    (hroom : slots.nonPersistentQueue.count < maxNonPersistent) :
    waiting k { slots with nonPersistentQueue := slots.nonPersistentQueue.push c hroom } =
      waiting k slots ++ [k.conn c.fd] := by
  rw [waiting, queued_push, List.map_append, waiting, List.map_singleton]

theorem waiting_pop (k : Kernel) (slots : Slots)
    (hcount : 0 < slots.nonPersistentQueue.count) : waiting k slots =
    k.conn (slots.nonPersistentQueue.front hcount).fd ::
      waiting k { slots with nonPersistentQueue := slots.nonPersistentQueue.pop } := by
  rw [waiting, queued_pop slots hcount, List.map_cons, waiting]

end Parts

/-! ## One step -/

theorem conn_registerClient (s : State) (fd : Fd) (add : Bool) :
    (registerClient s fd add).kernel.conn = s.kernel.conn := by
  rw [registerClient]
  split <;> rfl

theorem waiting_registerClient (s : State) (fd : Fd) (add : Bool) :
    waiting (registerClient s fd add).kernel (registerClient s fd add).slots =
      waiting s.kernel s.slots := by
  rw [waiting, waiting, conn_registerClient, slots_registerClient]

theorem order_place_iff {s : State} {i : Input} {fd : Fd} {connectTime : Timeval}
    (ha : action s i = .place fd connectTime) (hfd : 0 ≤ fd) (hnum : Numbered s)
    (hwork : WorkConserving s.slots) :
    (WorkConserving (perform s i.add (.place fd connectTime)).slots ∧
      waiting s.kernel s.slots ++ beginsToWait s i = takesSlot s i ++
        waiting (perform s i.add (.place fd connectTime)).kernel
          (perform s i.add (.place fd connectTime)).slots) ↔ fd ∉ queued s.slots := by
  have hnew := waiting_accept_iff s.slots (hnum.conn fd)
  rw [perform, placeClient]
  simp only [beginsToWait, takesSlot, ha]
  split
  · rename_i hper
    rw [if_neg (fun h => h.1 hper), waiting_registerClient, slots_registerClient,
      List.append_nil, List.nil_append]
    exact ⟨fun h => hnew.mp h.2, fun h => ⟨hwork, hnew.mpr h⟩⟩
  · rename_i hper
    split
    · rename_i hnon
      -- The slot is given past the queue, which is empty while the slot is free.
      have hempty := queued_eq_nil (hwork hnon)
      rw [if_pos (.inl hnon), if_pos ⟨hper, hnon⟩, waiting_registerClient, slots_registerClient,
        hempty]
      have hwaiting : waiting s.kernel s.slots = [] := by rw [waiting, hempty, List.map_nil]
      refine iff_of_true ⟨fun hfree => absurd hfree (ne_sentinel hfd), ?_⟩ List.not_mem_nil
      rw [hwaiting]
      change [] ++ [s.kernel.accepted + 1] =
        [s.kernel.accepted + 1] ++ (queued s.slots).map (s.kernel.accept fd).conn
      rw [hempty, List.map_nil, List.nil_append, List.append_nil]
    · rename_i hnon
      split
      · rename_i hroom
        rw [if_pos (.inr hroom), if_neg (fun h => hnon h.2), waiting_push,
          Kernel.conn_accept_self, List.nil_append, List.append_cancel_right_eq]
        exact ⟨fun h => hnew.mp h.2, fun h => ⟨fun hfree => absurd hfree hnon, hnew.mpr h⟩⟩
      · rename_i hfull
        rw [if_neg (fun h => Or.elim h hnon hfull), if_neg (fun h => hnon h.2), List.append_nil,
          List.nil_append]
        exact ⟨fun h => hnew.mp h.2, fun h => ⟨hwork, hnew.mpr h⟩⟩

theorem order_data {s : State} {i : Input} {fd : Fd} {chunk : Chunk bufferSize}
    {time endTime : Timeval} (ha : action s i = .data fd chunk time endTime) (hfd : 0 ≤ fd)
    (hwork : WorkConserving s.slots) :
    WorkConserving (perform s i.add (.data fd chunk time endTime)).slots ∧
      waiting s.kernel s.slots ++ beginsToWait s i = takesSlot s i ++
        waiting (perform s i.add (.data fd chunk time endTime)).kernel
          (perform s i.add (.data fd chunk time endTime)).slots := by
  obtain ⟨_, _, _, _, hshape⟩ := readData_shape s fd chunk time endTime
  rw [perform, hshape]
  simp only [beginsToWait, takesSlot, ha]
  split
  · rename_i hmis
    rw [demote]
    split
    · rename_i hfree
      have hempty := queued_eq_nil (hwork hfree)
      rw [if_pos ⟨hmis, fun hrej => hrej.1 hfree⟩, if_pos ⟨hmis, hfree⟩]
      constructor
      · intro hsame
        exact absurd (hmis.1.trans hsame) (ne_sentinel hfd)
      · change (queued s.slots).map _ ++ _ = _ ++ (queued s.slots).map _
        rw [hempty]
        rfl
    · rename_i hbusy
      rw [if_neg (c := Misidentified s fd chunk ∧ s.slots.nonPersistentFd = -1)
        (fun h => hbusy h.2)]
      split
      · rename_i hroom
        rw [if_pos ⟨hmis, fun hrej => hrej.2 hroom⟩]
        refine ⟨fun hfree => absurd hfree hbusy, ?_⟩
        rw [hmis.1]
        exact (waiting_push s.kernel s.slots
          ⟨s.slots.persistentFd, s.clocks.conn1Start⟩ hroom).symm
      · rename_i hfull
        rw [if_neg (fun h => h.2 ⟨hbusy, hfull⟩), List.append_nil]
        exact ⟨hwork, rfl⟩
  · rename_i hmis
    rw [if_neg (fun h => hmis h.1), if_neg (fun h => hmis h.1), List.append_nil]
    exact ⟨hwork, rfl⟩

theorem order_finish_iff {s : State} {i : Input} (ha : action s i = .finish) (hnum : Numbered s) :
    (WorkConserving (perform s i.add .finish).slots ∧
      waiting s.kernel s.slots ++ beginsToWait s i = takesSlot s i ++
        waiting (perform s i.add .finish).kernel (perform s i.add .finish).slots) ↔
      (i.add = false → s.slots.nonPersistentQueue.count ≤ 1) := by
  simp only [perform, beginsToWait, takesSlot, ha, List.append_nil]
  cases Nat.eq_zero_or_pos s.slots.nonPersistentQueue.count with
  | inl hzero =>
    have hnone : ¬0 < s.slots.nonPersistentQueue.count := by omega
    have hsame : ¬0 < (expireInactive s).slots.nonPersistentQueue.count := hnone
    rw [promoteQueued, dif_neg hsame, dif_neg hnone]
    exact iff_of_true ⟨fun _ => hzero, rfl⟩ fun _ => by omega
  | inr hcount =>
    have hpop := waiting_pop s.kernel s.slots hcount
    have hsame : 0 < (expireInactive s).slots.nonPersistentQueue.count := hcount
    rw [promoteQueued, dif_pos hsame, dif_pos hcount]
    cases i.add with
    | true =>
      refine iff_of_true ⟨fun hfree => ?_, hpop⟩ (fun h => absurd h (by decide))
      exact absurd hfree (ne_sentinel (hnum.queue _ (front_mem_queued s.slots hcount)))
    | false =>
      constructor
      · -- The slot is left empty, so nobody may still be waiting.
        rintro ⟨hwork, _⟩ _
        have hzero : s.slots.nonPersistentQueue.count - 1 = 0 := hwork rfl
        omega
      · intro hone
        refine ⟨fun _ => ?_, hpop⟩
        have hle := hone rfl
        change s.slots.nonPersistentQueue.count - 1 = 0
        omega

theorem order_step_iff {s : State} {i : Input} (hp : Permitted s i) (hnum : Numbered s)
    (hwork : WorkConserving s.slots) :
    (WorkConserving (step s i).slots ∧
      waiting s.kernel s.slots ++ beginsToWait s i =
        takesSlot s i ++ waiting (step s i).kernel (step s i).slots) ↔ Orderly s i := by
  obtain ⟨_, _, _, halike⟩ := step_alike s i
  rw [halike]
  change (WorkConserving (perform s i.add (action s i)).slots ∧ _ = _ ++
    waiting (perform s i.add (action s i)).kernel (perform s i.add (action s i)).slots) ↔ _
  cases ha : action s i with
  | quiet | leave | stray =>
    simp only [beginsToWait, takesSlot, Orderly, ha, List.append_nil, List.nil_append]
    exact iff_of_true ⟨hwork, rfl⟩ trivial
  | place fd connectTime =>
    simp only [Orderly, ha]
    exact order_place_iff ha (permitted_place hp ha).1 hnum hwork
  | data fd chunk time endTime =>
    simp only [Orderly, ha]
    exact iff_of_true (order_data ha (hnum.sockets fd (permitted_data hp ha)) hwork) trivial
  | finish =>
    simp only [Orderly, ha]
    exact order_finish_iff ha hnum

theorem mem_queued_perform {s : State} {add : Bool} {a : Action} {fd : Fd}
    (h : fd ∈ queued (perform s add a).slots) : fd ∈ queued s.slots ∨
      (∃ connectTime, a = .place fd connectTime) ∨
      ∃ chunk time endTime, a = .data fd chunk time endTime := by
  cases a with
  | quiet | leave | stray => exact .inl h
  | place client connectTime =>
    rw [perform, placeClient] at h
    split_ifs at h with hper hnon hroom
    · rw [slots_registerClient] at h
      exact .inl h
    · rw [slots_registerClient] at h
      exact .inl h
    · rw [queued_push] at h
      cases List.mem_append.mp h with
      | inl hold => exact .inl hold
      | inr hlast => exact .inr (.inl ⟨connectTime, by rw [List.mem_singleton.mp hlast]⟩)
    · exact .inl h
  | data client chunk time endTime =>
    obtain ⟨_, _, _, _, hshape⟩ := readData_shape s client chunk time endTime
    rw [perform, hshape, demote] at h
    split_ifs at h with hmis hnon hroom
    · exact .inl h
    · have hpush := queued_push s.slots
        ⟨s.slots.persistentFd, s.clocks.conn1Start⟩ hroom
      cases List.mem_append.mp (hpush ▸ h : fd ∈ queued s.slots ++ _) with
      | inl hold => exact .inl hold
      | inr hlast =>
        refine .inr (.inr ⟨chunk, time, endTime, ?_⟩)
        rw [List.mem_singleton.mp hlast, ← hmis.1]
    · exact .inl h
    · exact .inl h
  | finish =>
    rw [perform, promoteQueued] at h
    split at h
    · rename_i hcount
      have hpop := queued_pop s.slots hcount
      cases add <;> exact .inl (hpop ▸ List.mem_cons_of_mem _ h)
    · exact .inl h

theorem mem_registered_registerClient {s : State} {client fd : Fd} {add : Bool}
    (h : fd ∈ (registerClient s client add).kernel.registered) :
    fd ∈ s.kernel.registered ∨ fd = client := by
  rw [registerClient] at h
  split at h
  · exact (Finset.mem_insert.mp h).symm
  · exact .inl (Finset.mem_of_mem_erase h)

theorem mem_registered_perform {s : State} {add : Bool} {a : Action} {fd : Fd}
    (h : fd ∈ (perform s add a).kernel.registered) : fd ∈ s.kernel.registered ∨
      (∃ connectTime, a = .place fd connectTime) ∨ fd ∈ queued s.slots := by
  have hdrop : ∀ client, fd ∈ (dropClient s client).kernel.registered → fd ∈ s.kernel.registered :=
    fun _ hmem => Finset.mem_of_mem_erase (Finset.mem_of_mem_erase hmem)
  cases a with
  | quiet => exact .inl h
  | leave | stray => exact .inl (hdrop _ h)
  | place client connectTime =>
    rw [perform, placeClient] at h
    split_ifs at h with hper hnon hroom
    · rcases mem_registered_registerClient h with hold | rfl
      · exact .inl hold
      · exact .inr (.inl ⟨connectTime, rfl⟩)
    · rcases mem_registered_registerClient h with hold | rfl
      · exact .inl hold
      · exact .inr (.inl ⟨connectTime, rfl⟩)
    · exact .inl h
    · exact .inl (Finset.mem_of_mem_erase h)
  | data client chunk time endTime =>
    obtain ⟨_, _, _, _, hshape⟩ := readData_shape s client chunk time endTime
    rw [perform, hshape, demote] at h
    split_ifs at h with hmis hnon hroom
    · exact .inl h
    · exact .inl h
    · exact .inl (hdrop _ h)
    · exact .inl h
  | finish =>
    rw [perform, promoteQueued] at h
    split at h
    · rename_i hcount
      have hfront := front_mem_queued s.slots hcount
      cases add with
      | true =>
        cases Finset.mem_insert.mp h with
        | inl hnew => exact .inr (.inr (hnew ▸ hfront))
        | inr hold => exact .inl (hdrop _ hold)
      | false => exact .inl (hdrop _ (Finset.mem_of_mem_erase h))
    · exact .inl (hdrop _ h)

theorem numbered_start {s : State} (h : Initial s) : Numbered s := by
  refine ⟨socketsNonneg_start h, ?_, ?_, ?_, numbersBounded_start h⟩
  · obtain ⟨_, _, _, _, _, rfl⟩ := h
    exact fun fd hfd => absurd hfd List.not_mem_nil
  · obtain ⟨serverFd, _, _, _, hserver, rfl⟩ := h
    intro fd hfd
    exact Finset.mem_singleton.mp hfd ▸ hserver
  · obtain ⟨_, _, _, _, _, rfl⟩ := h
    exact fun fd hfd => absurd hfd List.not_mem_nil

theorem numbered_step {s : State} {i : Input} (hp : Permitted s i) (h : Numbered s) :
    Numbered (step s i) := by
  refine ⟨socketsNonneg_step hp h.sockets, ?_, ?_, ?_, numbersBounded_step i h.conn⟩
  · obtain ⟨_, _, _, halike⟩ := step_alike s i
    rw [halike]
    change ∀ fd ∈ queued (perform s i.add (action s i)).slots, 0 ≤ fd
    intro fd hfd
    rcases mem_queued_perform hfd with hold | ⟨connectTime, ha⟩ | ⟨chunk, time, endTime, ha⟩
    · exact h.queue fd hold
    · exact (permitted_place hp ha).1
    · exact h.sockets fd (permitted_data hp ha)
  · obtain ⟨_, _, _, halike⟩ := step_alike s i
    rw [halike]
    change ∀ fd ∈ (perform s i.add (action s i)).kernel.registered, 0 ≤ fd
    intro fd hfd
    rcases mem_registered_perform hfd with hold | ⟨connectTime, ha⟩ | hqueued
    · exact h.registered fd hold
    · exact (permitted_place hp ha).1
    · exact h.queue fd hqueued
  · intro fd hfd
    cases mem_pending_step hp hfd with
    | inl hold => exact h.pending fd hold
    | inr hregistered => exact h.registered fd hregistered

/-- The slot is never empty while somebody waits, and it is given in the order in
which the connections began to wait, exactly when no promotion is refused with
more connections behind and no accepted descriptor is still in the queue. -/
theorem slot_fair_iff (x : Run) :
    (∀ n, WorkConserving (x.stateAt n).slots ∧ InOrder (x.upTo n)) ↔ x.EachStep Orderly := by
  apply x.forall_take_iff_eachStep (J := fun is => Numbered (run step x.start is))
    (P := fun is => WorkConserving (run step x.start is).slots ∧
      collect step beginsToWait x.start is = collect step takesSlot x.start is ++
        waiting (run step x.start is).kernel (run step x.start is).slots)
  · refine ⟨numbered_start x.begins, ?_⟩
    obtain ⟨_, _, _, _, _, hstart⟩ := x.begins
    rw [run_nil, hstart]
    exact ⟨fun _ => rfl, rfl⟩
  · intro is i hp hnum _ _
    rw [run_snoc]
    exact numbered_step hp hnum
  · rintro is i hp hnum ⟨hwork, horder⟩
    rw [run_snoc, collect_snoc, collect_snoc, horder, ← order_step_iff hp hnum hwork,
      List.append_assoc, List.append_assoc, List.append_cancel_left_eq]

/-- The promotion of the first of two waiting connections is refused. The second
one stays in the queue and the next client to connect takes the slot. -/
def refusedPromotion : List Input :=
  [ready [3] 0, accepts 4 true 0, ready [3] 0, accepts 5 true 0, ready [3] 0, accepts 6 true 0,
    ready [3] 0, accepts 7 true 0, ready [5] 1, receives .eof false 1, ready [3] 2,
    accepts 8 true 2]

theorem permitted_refusedPromotion : Along step Permitted freshStart refusedPromotion := by
  with_unfolding_all decide

def refusedPromotionRun : Run :=
  ⟨freshStart, refusedPromotion, initial_freshStart, permitted_refusedPromotion⟩

theorem overtaken_refusedPromotion : refusedPromotionRun.EachStep AddObeyed ∧
    (refusedPromotionRun.stateAt 10).slots.nonPersistentFd = -1 ∧
    queued (refusedPromotionRun.stateAt 10).slots = [7] ∧
    refusedPromotionRun.observed beginsToWait = [2, 3, 4, 5] ∧
    refusedPromotionRun.observed takesSlot = [2, 3, 5] ∧
    ¬∀ n, WorkConserving (refusedPromotionRun.stateAt n).slots ∧
      InOrder (refusedPromotionRun.upTo n) := by
  have hfree : (refusedPromotionRun.stateAt 10).slots.nonPersistentFd = -1 := by
    with_unfolding_all decide
  have hcount : (refusedPromotionRun.stateAt 10).slots.nonPersistentQueue.count = 1 := by
    with_unfolding_all decide
  refine ⟨(by with_unfolding_all decide : Along step AddObeyed freshStart refusedPromotion), hfree,
    by with_unfolding_all decide, by with_unfolding_all decide, by with_unfolding_all decide, ?_⟩
  intro h
  have hzero := (h 10).1 hfree
  rw [hcount] at hzero
  cases hzero

end ConnectionOrder.ServerEpx3
