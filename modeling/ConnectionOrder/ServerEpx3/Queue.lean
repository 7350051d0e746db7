import ConnectionOrder.ServerEpx3.Runs

/-!
# The queue of server_epx3

A connection accepted into the queue was never registered, so promoting it can
register it. A persistent connection that is demoted into the queue stays
registered, and a descriptor that is closed while its number is in the queue
leaves a dangling entry.
-/

namespace ConnectionOrder.ServerEpx3

open Machine

def queued (slots : Slots) : List Fd := slots.nonPersistentQueue.toList.map Connection.fd

structure QueueSound (k : Kernel) (slots : Slots) : Prop where
  nodup : (queued slots).Nodup
  persistent : slots.persistentFd ∉ queued slots
  nonPersistent : slots.nonPersistentFd ∉ queued slots
  isOpen : ∀ fd ∈ queued slots, fd ∈ k.sockets
  unregistered : ∀ fd ∈ queued slots, fd ∉ k.registered

/-- What is registered is open or the listening socket, and the persistent
connection is registered while it is open. -/
structure Registration (serverFd : Fd) (k : Kernel) (slots : Slots) : Prop where
  inside : ∀ fd ∈ k.registered, fd = serverFd ∨ fd ∈ k.sockets
  persistent : slots.persistentFd ∈ k.sockets → slots.persistentFd ∈ k.registered

/-- The EPOLL_CTL_ADD of a promotion is not refused because the descriptor is
closed or registered. -/
def PromotionAddable (s : State) (i : Input) : Prop :=
  match action s i with
  | .finish => ∀ h : 0 < s.slots.nonPersistentQueue.count,
      (s.kernel.close s.slots.nonPersistentFd).Addable (s.slots.nonPersistentQueue.front h).fd
  | _ => True

/-- Nothing is demoted into the queue, an accepted descriptor put into the queue
is not the number a slot still holds, and no stray close hits a queued one. -/
def QueueSafe (s : State) (i : Input) : Prop :=
  match action s i with
  | .place fd _ =>
    s.slots.persistentFd ≠ -1 → s.slots.nonPersistentFd ≠ -1 →
      s.slots.nonPersistentQueue.count < maxNonPersistent →
      fd ≠ s.slots.persistentFd ∧ fd ≠ s.slots.nonPersistentFd
  | .data fd chunk _ _ => Misidentified s fd chunk → s.slots.nonPersistentFd ≠ -1 →
      ¬s.slots.nonPersistentQueue.count < maxNonPersistent
  | .stray fd => fd ∉ queued s.slots
  | _ => True

section Parts

variable {serverFd fd : Fd} {k : Kernel} {slots : Slots}

theorem QueueSound.close (h : QueueSound k slots) (hfd : fd ∉ queued slots) :
    QueueSound (k.close fd) slots where
  nodup := h.nodup
  persistent := h.persistent
  nonPersistent := h.nonPersistent
  isOpen other hother := by
    refine Finset.mem_erase.mpr ⟨?_, h.isOpen other hother⟩
    rintro rfl
    exact hfd hother
  unregistered other hother hreg := h.unregistered other hother (Finset.mem_of_mem_erase hreg)

theorem QueueSound.drop (h : QueueSound k slots) (hfd : fd ∉ queued slots) :
    QueueSound ((k.delete fd).close fd) slots := by
  rw [Kernel.close_delete]
  exact h.close hfd

theorem QueueSound.add (h : QueueSound k slots) (hfd : fd ∉ queued slots) :
    QueueSound (k.add fd) slots where
  nodup := h.nodup
  persistent := h.persistent
  nonPersistent := h.nonPersistent
  isOpen := h.isOpen
  unregistered other hother hreg := by
    rcases Finset.mem_insert.mp hreg with rfl | hold
    · exact hfd hother
    · exact h.unregistered other hother hold

theorem QueueSound.accept (h : QueueSound k slots) : QueueSound (k.accept fd) slots where
  nodup := h.nodup
  persistent := h.persistent
  nonPersistent := h.nonPersistent
  isOpen other hother := Finset.mem_insert_of_mem (h.isOpen other hother)
  unregistered := h.unregistered

theorem QueueSound.setPersistent (h : QueueSound k slots) (hfd : fd ∉ queued slots) :
    QueueSound k { slots with persistentFd := fd } :=
  ⟨h.nodup, hfd, h.nonPersistent, h.isOpen, h.unregistered⟩

theorem QueueSound.setNonPersistent (h : QueueSound k slots) (hfd : fd ∉ queued slots)
    (connectTime : Timeval) :
    QueueSound k { slots with nonPersistentFd := fd, nonPersistentConnectTime := connectTime } :=
  ⟨h.nodup, h.persistent, hfd, h.isOpen, h.unregistered⟩

theorem queued_push (slots : Slots) (c : Connection)
    (hroom : slots.nonPersistentQueue.count < maxNonPersistent) :
    queued { slots with nonPersistentQueue := slots.nonPersistentQueue.push c hroom } =
      queued slots ++ [c.fd] := by
  simp only [queued, ArrayQueue.toList_push, List.map_append, List.map_cons, List.map_nil]

theorem queued_pop (slots : Slots) (hcount : 0 < slots.nonPersistentQueue.count) : queued slots =
    (slots.nonPersistentQueue.front hcount).fd ::
      queued { slots with nonPersistentQueue := slots.nonPersistentQueue.pop } := by
  simp only [queued]
  rw [ArrayQueue.toList_pop _ hcount, List.map_cons]

/-- Appending to the queue keeps it sound exactly when the new descriptor is open,
unregistered, new to the queue and in no slot. -/
theorem QueueSound.push_iff (h : QueueSound k slots) (c : Connection)
    (hroom : slots.nonPersistentQueue.count < maxNonPersistent) :
    QueueSound k { slots with nonPersistentQueue := slots.nonPersistentQueue.push c hroom } ↔
      c.fd ∉ queued slots ∧ c.fd ≠ slots.persistentFd ∧ c.fd ≠ slots.nonPersistentFd ∧
      c.fd ∈ k.sockets ∧ c.fd ∉ k.registered := by
  have hpush := queued_push slots c hroom
  have hlast : c.fd ∈ queued slots ++ [c.fd] := List.mem_append_right _ List.mem_cons_self
  constructor
  · rintro ⟨hnodup, hper, hnon, hopen, hunreg⟩
    rw [hpush] at hnodup hper hnon hopen hunreg
    refine ⟨?_, ?_, ?_, hopen _ hlast, hunreg _ hlast⟩
    · intro hmem
      exact (List.nodup_append.mp hnodup).2.2 _ hmem _ List.mem_cons_self rfl
    · rintro heq
      exact hper (heq ▸ hlast)
    · rintro heq
      exact hnon (heq ▸ hlast)
  · rintro ⟨hnew, hper, hnon, hopen, hunreg⟩
    constructor
    · rw [hpush]
      refine List.nodup_append.mpr ⟨h.nodup, List.nodup_singleton _, ?_⟩
      rintro fd hfd other hother rfl
      exact hnew (List.mem_singleton.mp hother ▸ hfd)
    · rw [hpush]
      rintro hmem
      cases List.mem_append.mp hmem with
      | inl hold => exact h.persistent hold
      | inr hnewest => exact hper (List.mem_singleton.mp hnewest).symm
    · rw [hpush]
      rintro hmem
      cases List.mem_append.mp hmem with
      | inl hold => exact h.nonPersistent hold
      | inr hnewest => exact hnon (List.mem_singleton.mp hnewest).symm
    · rw [hpush]
      intro fd hfd
      cases List.mem_append.mp hfd with
      | inl hold => exact h.isOpen fd hold
      | inr hnewest => exact List.mem_singleton.mp hnewest ▸ hopen
    · rw [hpush]
      intro fd hfd
      cases List.mem_append.mp hfd with
      | inl hold => exact h.unregistered fd hold
      | inr hnewest => exact List.mem_singleton.mp hnewest ▸ hunreg

theorem QueueSound.pop (h : QueueSound k slots) (hcount : 0 < slots.nonPersistentQueue.count) :
    (slots.nonPersistentQueue.front hcount).fd ∉
      queued { slots with nonPersistentQueue := slots.nonPersistentQueue.pop } ∧
    QueueSound k { slots with nonPersistentQueue := slots.nonPersistentQueue.pop } := by
  obtain ⟨hnodup, hper, hnon, hopen, hunreg⟩ := h
  rw [queued_pop slots hcount] at hnodup hper hnon hopen hunreg
  obtain ⟨hfront, hnodup⟩ := List.nodup_cons.mp hnodup
  refine ⟨hfront, hnodup, ?_, ?_, ?_, ?_⟩
  · exact fun hmem => hper (List.mem_cons_of_mem _ hmem)
  · exact fun hmem => hnon (List.mem_cons_of_mem _ hmem)
  · exact fun fd hmem => hopen fd (List.mem_cons_of_mem _ hmem)
  · exact fun fd hmem => hunreg fd (List.mem_cons_of_mem _ hmem)

theorem front_mem_queued (slots : Slots) (hcount : 0 < slots.nonPersistentQueue.count) :
    (slots.nonPersistentQueue.front hcount).fd ∈ queued slots :=
  List.mem_map_of_mem (ArrayQueue.front_mem _ hcount)

theorem QueueSound.sentinel (h : QueueSound k slots) (hpos : ∀ fd ∈ k.sockets, 0 ≤ fd) :
    -1 ∉ queued slots := by
  intro hmem
  exact absurd (hpos _ (h.isOpen _ hmem)) (by decide)

theorem Registration.close (h : Registration serverFd k slots) (fd : Fd) :
    Registration serverFd (k.close fd) slots where
  inside other hother := by
    obtain ⟨hne, hreg⟩ := Finset.mem_erase.mp hother
    cases h.inside other hreg with
    | inl hserver => exact .inl hserver
    | inr hopen => exact .inr (Finset.mem_erase.mpr ⟨hne, hopen⟩)
  persistent hother := by
    obtain ⟨hne, hopen⟩ := Finset.mem_erase.mp hother
    exact Finset.mem_erase.mpr ⟨hne, h.persistent hopen⟩

theorem Registration.drop (h : Registration serverFd k slots) (fd : Fd) :
    Registration serverFd ((k.delete fd).close fd) slots := by
  rw [Kernel.close_delete]
  exact h.close fd

theorem Registration.add (h : Registration serverFd k slots) (hfd : fd ∈ k.sockets) :
    Registration serverFd (k.add fd) slots where
  inside other hother := by
    rcases Finset.mem_insert.mp hother with rfl | hold
    · exact .inr hfd
    · exact h.inside other hold
  persistent hother := Finset.mem_insert_of_mem (h.persistent hother)

theorem Registration.register {s : State} (hinside : ∀ fd ∈ s.kernel.registered,
      fd = s.serverFd ∨ fd ∈ s.kernel.sockets)
    (hpersistent : s.slots.persistentFd ∈ s.kernel.sockets → s.slots.persistentFd ≠ fd →
      s.slots.persistentFd ∈ s.kernel.registered)
    (hfd : fd ∈ s.kernel.sockets) (add : Bool) :
    Registration s.serverFd (registerClient s fd add).kernel (registerClient s fd add).slots := by
  rw [registerClient]
  cases add with
  | true =>
    constructor
    · intro other hother
      rcases Finset.mem_insert.mp hother with rfl | hold
      · exact .inr hfd
      · exact hinside other hold
    · intro hopen
      cases eq_or_ne s.slots.persistentFd fd with
      | inl heq => exact Finset.mem_insert.mpr (.inl heq)
      | inr hne => exact Finset.mem_insert_of_mem (hpersistent hopen hne)
  | false =>
    constructor
    · intro other hother
      obtain ⟨hne, hreg⟩ := Finset.mem_erase.mp hother
      cases hinside other hreg with
      | inl hserver => exact .inl hserver
      | inr hopen => exact .inr (Finset.mem_erase.mpr ⟨hne, hopen⟩)
    · intro hother
      obtain ⟨hne, hopen⟩ := Finset.mem_erase.mp hother
      exact Finset.mem_erase.mpr ⟨hne, hpersistent hopen hne⟩

theorem QueueSound.register {s : State} (h : QueueSound s.kernel s.slots)
    (hfd : fd ∉ queued s.slots) (add : Bool) :
    QueueSound (registerClient s fd add).kernel (registerClient s fd add).slots := by
  rw [registerClient]
  cases add with
  | true => exact h.add hfd
  | false => exact h.close hfd

end Parts

/-! ## One step -/

theorem queueSound_place_iff {s : State} {fd : Fd} (connectTime : Timeval) (add : Bool)
    (h : QueueSound s.kernel s.slots) (hreg : Registration s.serverFd s.kernel s.slots)
    (hserver : fd ≠ s.serverFd) (hfresh : fd ∉ s.kernel.sockets) :
    QueueSound (perform s add (.place fd connectTime)).kernel
        (perform s add (.place fd connectTime)).slots ↔
      (s.slots.persistentFd ≠ -1 → s.slots.nonPersistentFd ≠ -1 →
        s.slots.nonPersistentQueue.count < maxNonPersistent →
        fd ≠ s.slots.persistentFd ∧ fd ≠ s.slots.nonPersistentFd) := by
  have hnew : fd ∉ queued s.slots := fun hmem => hfresh (h.isOpen fd hmem)
  have haccepted : QueueSound (s.kernel.accept fd) s.slots := h.accept
  rw [perform, placeClient]
  split
  · rename_i hper
    refine iff_of_true ?_ fun hbusy => absurd hper hbusy
    exact (haccepted.setPersistent hnew).register
      (s := { s with
        kernel := s.kernel.accept fd
        activeClients := s.activeClients + 1
        slots := { s.slots with persistentFd := fd } }) hnew add
  · rename_i hper
    split
    · rename_i hnon
      refine iff_of_true ?_ fun _ hbusy => absurd hnon hbusy
      exact (haccepted.setNonPersistent hnew connectTime).register
        (s := { s with
          kernel := s.kernel.accept fd
          activeClients := s.activeClients + 1
          slots := { s.slots with
            nonPersistentFd := fd
            nonPersistentConnectTime := connectTime } }) hnew add
    · rename_i hnon
      split
      · rename_i hroom
        have hpush := haccepted.push_iff ⟨fd, connectTime⟩ hroom
        have hopen : fd ∈ (s.kernel.accept fd).sockets := Finset.mem_insert_self _ _
        have hunreg : fd ∉ (s.kernel.accept fd).registered := by
          intro hmem
          exact (hreg.inside fd hmem).elim hserver hfresh
        refine hpush.trans ⟨fun hall _ _ _ => ⟨hall.2.1, hall.2.2.1⟩, fun hsafe => ?_⟩
        obtain ⟨hper', hnon'⟩ := hsafe hper hnon hroom
        exact ⟨hnew, hper', hnon', hopen, hunreg⟩
      · rename_i hfull
        exact iff_of_true (haccepted.close hnew) fun _ _ hroom => absurd hroom hfull

theorem queueSound_data_iff {s : State} {fd : Fd} (chunk : Chunk bufferSize)
    (time endTime : Timeval) (add : Bool) (h : QueueSound s.kernel s.slots)
    (hreg : Registration s.serverFd s.kernel s.slots) (hpos : SocketsNonneg s)
    (hfd : fd ∈ s.kernel.sockets) :
    QueueSound (perform s add (.data fd chunk time endTime)).kernel
        (perform s add (.data fd chunk time endTime)).slots ↔
      (Misidentified s fd chunk → s.slots.nonPersistentFd ≠ -1 →
        ¬s.slots.nonPersistentQueue.count < maxNonPersistent) := by
  obtain ⟨_, _, _, _, hshape⟩ := readData_shape s fd chunk time endTime
  rw [perform, hshape]
  dsimp only
  split
  · rename_i hmis
    have hsentinel := h.sentinel hpos
    have hper := h.persistent
    rw [demote]
    split
    · rename_i hfree
      refine iff_of_true ?_ fun _ hbusy => absurd hfree hbusy
      exact (h.setNonPersistent hper _).setPersistent hsentinel
    · rename_i hbusy
      split
      · rename_i hroom
        -- The connection put into the queue is open, hence still registered.
        refine iff_of_false ?_ fun hsafe => hsafe hmis hbusy hroom
        intro hsound
        have hlast : s.slots.persistentFd ∈ queued { s.slots with
            nonPersistentQueue :=
              s.slots.nonPersistentQueue.push ⟨s.slots.persistentFd, s.clocks.conn1Start⟩ hroom
            persistentFd := -1 } := by
          have hpush := queued_push s.slots
            ⟨s.slots.persistentFd, s.clocks.conn1Start⟩ hroom
          exact hpush ▸ List.mem_append_right _ List.mem_cons_self
        exact hsound.unregistered _ hlast (hreg.persistent (hmis.1 ▸ hfd))
      · rename_i hfull
        refine iff_of_true ?_ fun _ _ => hfull
        exact (h.drop (hmis.1 ▸ hper)).setPersistent hsentinel
  · rename_i hmis
    exact iff_of_true h fun habsurd => absurd habsurd hmis

theorem queueSound_promote {s : State} (add : Bool) (h : QueueSound s.kernel s.slots)
    (hpos : SocketsNonneg s) :
    QueueSound (promoteQueued s add).kernel (promoteQueued s add).slots := by
  rw [promoteQueued]
  split
  · rename_i hcount
    obtain ⟨hfront, hpop⟩ := h.pop hcount
    cases add with
    | true => exact (hpop.setNonPersistent hfront _).add hfront
    | false =>
      refine (hpop.setNonPersistent ?_ _).close hfront
      intro hmem
      have hold := queued_pop s.slots hcount
      exact h.sentinel hpos (hold ▸ List.mem_cons_of_mem _ hmem)
  · exact h

theorem QueueSound.expire {s : State} (h : QueueSound s.kernel s.slots) (hpos : SocketsNonneg s) :
    QueueSound (expireInactive s).kernel (expireInactive s).slots :=
  (h.drop h.nonPersistent).setNonPersistent (h.sentinel hpos) _

theorem queueSound_step_iff {s : State} {i : Input} (hp : Permitted s i) (hpos : SocketsNonneg s)
    (hreg : Registration s.serverFd s.kernel s.slots) (h : QueueSound s.kernel s.slots) :
    QueueSound (step s i).kernel (step s i).slots ↔ QueueSafe s i := by
  obtain ⟨_, _, _, halike⟩ := step_alike s i
  rw [halike]
  change QueueSound (perform s i.add (action s i)).kernel (perform s i.add (action s i)).slots ↔ _
  rw [QueueSafe]
  cases ha : action s i with
  | quiet => exact iff_of_true h trivial
  | place fd connectTime =>
    obtain ⟨_, hserver, hfresh⟩ := permitted_place hp ha
    exact queueSound_place_iff connectTime i.add h hreg hserver hfresh
  | data fd chunk time endTime =>
    exact queueSound_data_iff chunk time endTime i.add h hreg hpos (permitted_data hp ha)
  | leave time =>
    have hdrop := h.drop h.persistent
    exact iff_of_true (hdrop.setPersistent (h.sentinel hpos)) trivial
  | finish =>
    refine iff_of_true (queueSound_promote i.add (h.expire hpos) ?_) trivial
    intro fd hfd
    exact hpos fd (mem_sockets_dropClient hfd)
  | stray fd =>
    change QueueSound ((s.kernel.delete fd).close fd) s.slots ↔ fd ∉ queued s.slots
    rw [Kernel.close_delete]
    refine ⟨fun hsound hmem => ?_, h.close⟩
    exact Finset.notMem_erase fd _ (hsound.isOpen fd hmem)

theorem registration_promote {s : State} (add : Bool) (h : Registration s.serverFd s.kernel s.slots)
    (hsound : QueueSound s.kernel s.slots) :
    Registration s.serverFd (promoteQueued s add).kernel (promoteQueued s add).slots := by
  rw [promoteQueued]
  split
  · rename_i hcount
    cases add with
    | true =>
      have hadd := h.add (hsound.isOpen _ (front_mem_queued s.slots hcount))
      exact ⟨hadd.inside, hadd.persistent⟩
    | false =>
      have hclose : Registration s.serverFd (s.kernel.close _) s.slots :=
        h.close (s.slots.nonPersistentQueue.front hcount).fd
      exact ⟨hclose.inside, hclose.persistent⟩
  · exact h

theorem registration_place {s : State} {fd : Fd} (connectTime : Timeval) (add : Bool)
    (h : Registration s.serverFd s.kernel s.slots)
    (hsound : QueueSound (perform s add (.place fd connectTime)).kernel
      (perform s add (.place fd connectTime)).slots) :
    Registration s.serverFd (perform s add (.place fd connectTime)).kernel
      (perform s add (.place fd connectTime)).slots := by
  have hopen : fd ∈ (s.kernel.accept fd).sockets := Finset.mem_insert_self _ _
  have hinside : ∀ other ∈ (s.kernel.accept fd).registered,
      other = s.serverFd ∨ other ∈ (s.kernel.accept fd).sockets := by
    intro other hother
    exact (h.inside other hother).imp_right Finset.mem_insert_of_mem
  have hpersistent : s.slots.persistentFd ∈ (s.kernel.accept fd).sockets →
      s.slots.persistentFd ≠ fd → s.slots.persistentFd ∈ (s.kernel.accept fd).registered := by
    intro hmem hne
    exact h.persistent (Finset.mem_of_mem_insert_of_ne hmem hne)
  rw [perform, placeClient] at hsound ⊢
  split at hsound
  · rename_i hper
    rw [if_pos hper]
    exact Registration.register (s := { s with
        kernel := s.kernel.accept fd
        activeClients := s.activeClients + 1
        slots := { s.slots with persistentFd := fd } })
      hinside (fun _ hne => absurd rfl hne) hopen add
  · rename_i hper
    rw [if_neg hper]
    split at hsound
    · rename_i hnon
      rw [if_pos hnon]
      exact Registration.register (s := { s with
          kernel := s.kernel.accept fd
          activeClients := s.activeClients + 1
          slots := { s.slots with
            nonPersistentFd := fd
            nonPersistentConnectTime := connectTime } })
        hinside hpersistent hopen add
    · rename_i hnon
      rw [if_neg hnon]
      split at hsound
      · rename_i hroom
        rw [dif_pos hroom]
        refine ⟨hinside, fun hmem => hpersistent hmem ?_⟩
        -- A queued number that the persistent slot holds would break the queue.
        rintro heq
        have hlast : fd ∈ queued { s.slots with
            nonPersistentQueue := s.slots.nonPersistentQueue.push ⟨fd, connectTime⟩ hroom } := by
          have hpush := queued_push s.slots ⟨fd, connectTime⟩ hroom
          exact hpush ▸ List.mem_append_right _ List.mem_cons_self
        exact hsound.persistent (heq ▸ hlast)
      · rename_i hfull
        rw [dif_neg hfull]
        exact (Registration.register (s := { s with
            kernel := s.kernel.accept fd
            activeClients := s.activeClients + 1 }) hinside hpersistent hopen false)

theorem registration_step {s : State} {i : Input} (hpos : SocketsNonneg s)
    (h : Registration s.serverFd s.kernel s.slots) (hsound : QueueSound s.kernel s.slots)
    (hnext : QueueSound (step s i).kernel (step s i).slots) :
    Registration (step s i).serverFd (step s i).kernel (step s i).slots := by
  obtain ⟨_, _, _, halike⟩ := step_alike s i
  rw [halike] at hnext ⊢
  change QueueSound (perform s i.add (action s i)).kernel (perform s i.add (action s i)).slots
    at hnext
  change Registration (perform s i.add (action s i)).serverFd
    (perform s i.add (action s i)).kernel (perform s i.add (action s i)).slots
  rw [(loop_perform _ _ _).1]
  have hsentinel := sentinel_closed hpos
  generalize action s i = a at hnext ⊢
  cases a with
  | quiet => exact h
  | place fd connectTime => exact registration_place connectTime i.add h hnext
  | data fd chunk time endTime =>
    obtain ⟨_, _, _, _, hshape⟩ := readData_shape s fd chunk time endTime
    rw [perform, hshape]
    dsimp only
    split
    · rw [demote]
      split_ifs
      · exact ⟨h.inside, fun hmem => absurd hmem hsentinel⟩
      · exact ⟨h.inside, fun hmem => absurd hmem hsentinel⟩
      · refine ⟨(h.drop fd).inside, fun hmem => ?_⟩
        exact absurd (mem_sockets_dropClient hmem) hsentinel
    · exact h
  | leave time =>
    refine ⟨(h.drop s.slots.persistentFd).inside, fun hmem => ?_⟩
    exact absurd (mem_sockets_dropClient hmem) hsentinel
  | finish =>
    have hdrop := h.drop s.slots.nonPersistentFd
    exact registration_promote i.add (s := expireInactive s) ⟨hdrop.inside, hdrop.persistent⟩
      (hsound.expire hpos)
  | stray fd => exact h.drop fd

theorem promotionAddable_of_sound {s : State} (i : Input) (h : QueueSound s.kernel s.slots) :
    PromotionAddable s i := by
  rw [PromotionAddable]
  cases action s i with
  | quiet | place | data | leave | stray => trivial
  | finish =>
    intro hcount
    have hfront := front_mem_queued s.slots hcount
    have hclose := h.close h.nonPersistent
    exact ⟨hclose.isOpen _ hfront, hclose.unregistered _ hfront⟩

/-- The queue stays sound, and no promotion is refused for a descriptor that is
closed or registered, exactly when every step is safe for the queue. -/
theorem queue_sound_iff (x : Run) :
    (x.Always (fun s => QueueSound s.kernel s.slots) ∧ x.EachStep PromotionAddable) ↔
      x.EachStep QueueSafe := by
  have hsound : x.Always (fun s => QueueSound s.kernel s.slots) ↔ x.EachStep QueueSafe := by
    apply x.always_iff_eachStep
      (J := fun s => SocketsNonneg s ∧ Registration s.serverFd s.kernel s.slots)
      (P := fun s => QueueSound s.kernel s.slots)
    · intro s hs
      refine ⟨⟨socketsNonneg_start hs, ?_⟩, ?_⟩
      · obtain ⟨_, _, _, _, _, rfl⟩ := hs
        refine ⟨fun fd hfd => .inl (Finset.mem_singleton.mp hfd), fun hmem => ?_⟩
        exact absurd hmem (Finset.notMem_empty _)
      · obtain ⟨_, _, _, _, _, rfl⟩ := hs
        refine ⟨List.nodup_nil, List.not_mem_nil, List.not_mem_nil, ?_, ?_⟩
        · exact fun fd hfd => absurd hfd List.not_mem_nil
        · exact fun fd hfd => absurd hfd List.not_mem_nil
    · rintro s i hp ⟨hpos, hreg⟩ h hnext
      exact ⟨socketsNonneg_step hp hpos, registration_step hpos hreg h hnext⟩
    · rintro s i hp ⟨hpos, hreg⟩ h
      exact queueSound_step_iff hp hpos hreg h
  rw [← hsound]
  refine ⟨fun h => h.1, fun h => ⟨h, ?_⟩⟩
  rw [Execution.eachStep_iff]
  intro n hn
  exact promotionAddable_of_sound _ (h n)

/-- A demotion into the queue, then the end of the non-persistent connection: the
promotion is refused with EEXIST and the demoted client is cut off. -/
def demotedPromotion : List Input :=
  [ready [3] 0, accepts 4 true 0, ready [3] 0, accepts 5 true 0, ready [4] 1,
    receives (.data chunkN) true 1, ready [5] 2, receives .eof false 2]

theorem permitted_demotedPromotion : Along step Permitted freshStart demotedPromotion := by
  with_unfolding_all decide

def demotedPromotionRun : Run :=
  ⟨freshStart, demotedPromotion, initial_freshStart, permitted_demotedPromotion⟩

theorem promotion_refused_demotedPromotion : demotedPromotionRun.EachStep AddObeyed ∧
    queued (demotedPromotionRun.stateAt 6).slots = [4] ∧
    4 ∈ (demotedPromotionRun.stateAt 6).kernel.registered ∧
    demotedPromotionRun.final.kernel.sockets = ∅ ∧
    ¬(demotedPromotionRun.Always (fun s => QueueSound s.kernel s.slots) ∧
      demotedPromotionRun.EachStep PromotionAddable) := by
  have hqueued : queued (demotedPromotionRun.stateAt 6).slots = [4] := by with_unfolding_all decide
  have hregistered : 4 ∈ (demotedPromotionRun.stateAt 6).kernel.registered := by
    with_unfolding_all decide
  refine ⟨(by with_unfolding_all decide : Along step AddObeyed freshStart demotedPromotion),
    hqueued, hregistered, by with_unfolding_all decide, ?_⟩
  rintro ⟨hsound, _⟩
  exact (hsound 6).unregistered 4 (by rw [hqueued]; exact List.mem_cons_self) hregistered

end ConnectionOrder.ServerEpx3
