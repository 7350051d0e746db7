import ConnectionOrder.ServerExp2.Delivery
import Mathlib.Data.Finset.Card

/-!
# The client count of serverexp2

active_clients goes up for every connection that accept returns and down only at
an end of file, count goes up before accept is called. The exits for a failed
accept, a failed set-up and a failed or unwanted recv leave one of the two behind.
-/

namespace ConnectionOrder.ServerExp2

open Machine

/-- active_clients is the number of open clients, count that of accepted connections. -/
def Balanced (s : State) : Prop :=
  s.activeClients = s.kernel.sockets.card ∧ s.count = s.kernel.accepted

instance (s : State) : Decidable (Balanced s) := inferInstanceAs (Decidable (_ ∧ _))

/-- The handling of an event stops the loop exactly when it closes the last open client. -/
def StopsOnLast (s : State) : Input → Prop
  | .event answers => s.running = true →
      ((step s (.event answers)).running = false ↔
        s.kernel.sockets.Nonempty ∧ (step s (.event answers)).kernel.sockets = ∅)
  | .wait _ | .signal => True

/-- accept returns a connection that is then set up, recv returns 0, or data while
count is 2. -/
def Orderly (s : State) : Input → Prop
  | .event answers =>
    match s.pending with
    | [] => True
    | eventFd :: _ =>
      if eventFd = s.serverFd then
        answers.accept ≠ none ∧ answers.malloc = true ∧ answers.add = true
      else
        match answers.recv with
        | .data _ => s.count = 2
        | .eof => True
        | .again | .error => False
  | .wait _ | .signal => True

/-- A client is on the interest list only while it is open, and no event of the
batch is for a client that an earlier one closed. -/
structure Tidy (s : State) : Prop where
  server : s.serverFd ∉ s.kernel.sockets
  registered : ∀ fd ∈ s.kernel.registered, fd ≠ s.serverFd → fd ∈ s.kernel.sockets
  nodup : s.pending.Nodup
  pending : ∀ fd ∈ s.pending, fd ≠ s.serverFd → fd ∈ s.kernel.sockets

/-! ## The ledger

The part of the state that decides how many clients there are. -/

structure Ledger where
  kernel : Kernel
  running : Bool
  count : Int
  activeClients : Int

def State.ledger (s : State) : Ledger := ⟨s.kernel, s.running, s.count, s.activeClients⟩

/-- `refused` is a failed accept, `counted` data while count is 2. -/
inductive Outcome where
  | refused
  | placed (fd : Fd) (setUp : Bool)
  | counted
  | closed (fd : Fd) (eof : Bool)

def outcome (s : State) (eventFd : Fd) (answers : Answers) : Outcome :=
  if eventFd = s.serverFd then
    match answers.accept with
    | none => .refused
    | some fd => .placed fd (answers.malloc && answers.add)
  else
    match answers.recv with
    | .data _ => if s.count = 2 then .counted else .closed eventFd false
    | .eof => .closed eventFd true
    | .again | .error => .closed eventFd false

namespace Ledger

def after (l : Ledger) : Outcome → Ledger
  | .refused => { l with count := l.count + 1 }
  | .placed fd setUp =>
    { l with
      kernel := if setUp then (l.kernel.accept fd).add fd else (l.kernel.accept fd).close fd
      count := l.count + 1
      activeClients := l.activeClients + 1 }
  | .counted => l
  | .closed fd eof =>
    let activeClients := if eof then l.activeClients - 1 else l.activeClients
    { l with
      kernel := l.kernel.close fd
      running := if activeClients = 0 then false else l.running
      activeClients := activeClients }

def Balanced (l : Ledger) : Prop :=
  l.activeClients = l.kernel.sockets.card ∧ l.count = l.kernel.accepted

/-- Only a descriptor that is not open is handed out, only an open one is closed. -/
def Fits (l : Ledger) : Outcome → Prop
  | .placed fd _ => fd ∉ l.kernel.sockets
  | .closed fd _ => fd ∈ l.kernel.sockets
  | .refused | .counted => True

end Ledger

def Outcome.Orderly : Outcome → Prop
  | .refused => False
  | .placed _ setUp => setUp = true
  | .counted => True
  | .closed _ eof => eof = true

namespace Ledger

theorem balanced_after_iff {l : Ledger} {o : Outcome} (hfits : l.Fits o) (h : l.Balanced) :
    (l.after o).Balanced ↔ o.Orderly := by
  obtain ⟨hactive, hcount⟩ := h
  cases o with
  | refused =>
    refine iff_of_false (fun hafter => ?_) id
    have hahead : l.count + 1 = l.kernel.accepted := hafter.2
    omega
  | placed fd setUp =>
    have hcard : (insert fd l.kernel.sockets).card = l.kernel.sockets.card + 1 :=
      Finset.card_insert_of_notMem hfits
    cases setUp with
    | true =>
      refine iff_of_true ⟨?_, ?_⟩ rfl
      · change l.activeClients + 1 = ((insert fd l.kernel.sockets).card : Int)
        omega
      · change l.count + 1 = ((l.kernel.accepted + 1 : Nat) : Int)
        omega
    | false =>
      refine iff_of_false (fun hafter => ?_) Bool.false_ne_true
      have hstays : l.activeClients + 1 = (((insert fd l.kernel.sockets).erase fd).card : Int) :=
        hafter.1
      rw [Finset.erase_insert hfits] at hstays
      omega
  | counted => exact iff_of_true ⟨hactive, hcount⟩ trivial
  | closed fd eof =>
    have hcard : (l.kernel.sockets.erase fd).card + 1 = l.kernel.sockets.card :=
      Finset.card_erase_add_one hfits
    cases eof with
    | true =>
      refine iff_of_true ⟨?_, hcount⟩ rfl
      change l.activeClients - 1 = ((l.kernel.sockets.erase fd).card : Int)
      omega
    | false =>
      refine iff_of_false (fun hafter => ?_) Bool.false_ne_true
      have hstays : l.activeClients = ((l.kernel.sockets.erase fd).card : Int) := hafter.1
      omega

theorem stops_iff {l : Ledger} {o : Outcome} (hfits : l.Fits o) (h : l.Balanced)
    (horderly : o.Orderly) (hrunning : l.running = true) :
    (l.after o).running = false ↔
      l.kernel.sockets.Nonempty ∧ (l.after o).kernel.sockets = ∅ := by
  have hbalanced := (balanced_after_iff hfits h).mpr horderly
  cases o with
  | refused => exact horderly.elim
  | placed fd setUp =>
    cases horderly
    refine iff_of_false (fun hstop => ?_) (fun hnone => Finset.insert_ne_empty _ _ hnone.2)
    exact Bool.false_ne_true (hstop.symm.trans hrunning)
  | counted =>
    refine iff_of_false (fun hstop => ?_) (fun hnone => ?_)
    · exact Bool.false_ne_true (hstop.symm.trans hrunning)
    · exact hnone.1.ne_empty hnone.2
  | closed fd eof =>
    cases horderly
    have hactive : l.activeClients - 1 = ((l.kernel.sockets.erase fd).card : Int) := hbalanced.1
    have hempty : l.kernel.sockets.erase fd = ∅ ↔ l.activeClients - 1 = 0 := by
      rw [hactive, Nat.cast_eq_zero, Finset.card_eq_zero]
    have hnonempty : l.kernel.sockets.Nonempty := ⟨fd, hfits⟩
    change (if l.activeClients - 1 = 0 then false else l.running) = false ↔
      l.kernel.sockets.Nonempty ∧ l.kernel.sockets.erase fd = ∅
    rw [hempty, and_iff_right hnonempty]
    split
    · rename_i hzero
      exact iff_of_true rfl hzero
    · rename_i hzero
      exact iff_of_false (by simp [hrunning]) hzero

end Ledger

/-! ## What the branches leave alone -/

theorem countData_shape (s : State) (fd : Fd) (received : Nat) (clock : Fin 5 → Timeval) :
    ∃ clocks counters pick, countData s fd received clock =
      { s with clocks := clocks, counters := counters, pick := pick } := by
  rw [countData]
  split
  · obtain ⟨pick, one, both, hpair⟩ := pairSocket1_shape (tallyConn1 { s with
      counters := { s.counters with
        totalDataBytes := s.counters.totalDataBytes + UInt64.ofNat received } } received clock)
    rw [hpair]
    exact ⟨_, _, _, rfl⟩
  · split
    · obtain ⟨pick, one, both, hpair⟩ := pairSocket2_shape (tallyConn2 { s with
        counters := { s.counters with
          totalDataBytes := s.counters.totalDataBytes + UInt64.ofNat received } } received clock)
      rw [hpair]
      exact ⟨_, _, _, rfl⟩
    · exact ⟨_, _, _, rfl⟩

theorem clientEvent_data_shape (s : State) (fd : Fd) {answers : Answers}
    {chunk : Chunk bufferSize} (hrecv : answers.recv = .data chunk) (hcount : s.count = 2) :
    ∃ clocks counters pick, clientEvent s fd answers =
      { s with clocks := clocks, counters := counters, pick := pick } := by
  obtain ⟨clocks, one, two, hnote⟩ := note_shape s fd answers.clock
  rw [clientEvent, hrecv]
  dsimp only
  rw [hnote, if_pos hcount]
  exact countData_shape _ fd chunk.length answers.clock

theorem clientEvent_discard_shape (s : State) (fd : Fd) {answers : Answers}
    {chunk : Chunk bufferSize} (hrecv : answers.recv = .data chunk) (hcount : s.count ≠ 2) :
    ∃ clocks counters, clientEvent s fd answers =
      closeClient { s with clocks := clocks, counters := counters } fd false := by
  obtain ⟨clocks, one, two, hnote⟩ := note_shape s fd answers.clock
  rw [clientEvent, hrecv]
  dsimp only
  rw [hnote, if_neg hcount]
  exact ⟨_, _, rfl⟩

/-! ## The steps on the ledger -/

/-- The handling of an event moves the ledger by its outcome and leaves the batch alone. -/
def Handled (s s' : State) (o : Outcome) : Prop :=
  s'.ledger = s.ledger.after o ∧ s'.pending = s.pending ∧ s'.serverFd = s.serverFd

theorem handled_acceptClient (s : State) {answers : Answers} {fd : Fd}
    (haccept : answers.accept = some fd) :
    Handled s (acceptClient s answers) (.placed fd (answers.malloc && answers.add)) := by
  rw [acceptClient, haccept]
  dsimp only
  cases answers.malloc with
  | false => exact ⟨rfl, rfl, rfl⟩
  | true =>
    rw [if_pos rfl, Bool.true_and, registerClient, nameSocket_shape]
    cases answers.add with
    | false | true => exact ⟨rfl, rfl, rfl⟩

theorem handled_handleEvent (s : State) (eventFd : Fd) (answers : Answers) :
    Handled s (handleEvent s eventFd answers) (outcome s eventFd answers) := by
  rw [handleEvent, outcome]
  split
  · cases haccept : answers.accept with
    | none =>
      rw [acceptClient, haccept]
      exact ⟨rfl, rfl, rfl⟩
    | some fd => exact handled_acceptClient s haccept
  · cases hrecv : answers.recv with
    | data chunk =>
      dsimp only
      split
      · rename_i hcount
        obtain ⟨_, _, _, hshape⟩ := clientEvent_data_shape s eventFd hrecv hcount
        rw [hshape]
        exact ⟨rfl, rfl, rfl⟩
      · rename_i hcount
        obtain ⟨_, _, hshape⟩ := clientEvent_discard_shape s eventFd hrecv hcount
        rw [hshape]
        exact ⟨rfl, rfl, rfl⟩
    | eof | again | error =>
      rw [clientEvent, hrecv]
      exact ⟨rfl, rfl, rfl⟩

theorem orderly_iff {s : State} {eventFd : Fd} {rest : List Fd}
    (hpend : s.pending = eventFd :: rest) (answers : Answers) :
    Orderly s (.event answers) ↔ (outcome s eventFd answers).Orderly := by
  rw [Orderly, hpend, outcome]
  dsimp only
  split
  · cases answers.accept with
    | none => exact iff_of_false (fun h => h.1 rfl) id
    | some fd => simp [Outcome.Orderly]
  · cases answers.recv with
    | data chunk =>
      dsimp only
      split
      · rename_i hcount
        exact iff_of_true hcount trivial
      · rename_i hcount
        exact iff_of_false hcount Bool.false_ne_true
    | eof => exact iff_of_true trivial rfl
    | again | error => exact iff_of_false id Bool.false_ne_true

/-! ## Clients are closed once -/

theorem tidy_start {s : State} (h : Initial s) : Tidy s := by
  obtain ⟨serverFd, _, rfl⟩ := h
  constructor
  · exact Finset.notMem_empty serverFd
  · intro fd hfd hclient
    exact absurd (Finset.mem_singleton.mp hfd) hclient
  · exact List.nodup_nil
  · exact fun fd hfd => absurd hfd List.not_mem_nil

theorem Tidy.fits {s : State} {eventFd : Fd} {rest : List Fd} {answers : Answers} (h : Tidy s)
    (hpend : s.pending = eventFd :: rest) (hp : Permitted s (.event answers)) :
    s.ledger.Fits (outcome s eventFd answers) := by
  rw [Permitted, hpend] at hp
  rw [outcome]
  dsimp only at hp
  split at hp
  · rename_i hserver
    rw [if_pos hserver]
    cases haccept : answers.accept with
    | none => trivial
    | some fd => exact (hp fd haccept).2.2
  · rename_i hclient
    have hopen : eventFd ∈ s.kernel.sockets :=
      h.pending eventFd (hpend ▸ List.mem_cons_self) hclient
    rw [if_neg hclient]
    cases answers.recv with
    | data chunk =>
      dsimp only
      split
      · trivial
      · exact hopen
    | eof | again | error => exact hopen

namespace Ledger

theorem mem_after {l : Ledger} {o : Outcome} {fd : Fd} (hfits : l.Fits o)
    (hopen : fd ∈ l.kernel.sockets) (hother : ∀ eof, o ≠ .closed fd eof) :
    fd ∈ (l.after o).kernel.sockets := by
  cases o with
  | refused | counted => exact hopen
  | placed new setUp =>
    have hin : fd ∈ insert new l.kernel.sockets := Finset.mem_insert_of_mem hopen
    cases setUp with
    | true => exact hin
    | false =>
      refine Finset.mem_erase.mpr ⟨?_, hin⟩
      rintro rfl
      exact hfits hopen
  | closed old eof =>
    refine Finset.mem_erase.mpr ⟨?_, hopen⟩
    rintro rfl
    exact hother eof rfl

theorem notMem_after {l : Ledger} {o : Outcome} {fd : Fd} (hclosed : fd ∉ l.kernel.sockets)
    (hother : ∀ setUp, o ≠ .placed fd setUp) : fd ∉ (l.after o).kernel.sockets := by
  cases o with
  | refused | counted => exact hclosed
  | placed new setUp =>
    have hne : fd ≠ new := by
      rintro rfl
      exact hother setUp rfl
    have hout : fd ∉ insert new l.kernel.sockets := by
      simp [hne, hclosed]
    cases setUp with
    | true => exact hout
    | false => exact fun hin => hout (Finset.mem_of_mem_erase hin)
  | closed old eof => exact fun hin => hclosed (Finset.mem_of_mem_erase hin)

theorem registered_after {l : Ledger} {server : Fd} (o : Outcome)
    (h : ∀ fd ∈ l.kernel.registered, fd ≠ server → fd ∈ l.kernel.sockets) :
    ∀ fd ∈ (l.after o).kernel.registered, fd ≠ server → fd ∈ (l.after o).kernel.sockets := by
  intro fd hfd hclient
  cases o with
  | refused | counted => exact h fd hfd hclient
  | placed new setUp =>
    cases setUp with
    | true =>
      cases Finset.mem_insert.mp hfd with
      | inl hnew => exact Finset.mem_insert.mpr (.inl hnew)
      | inr hold => exact Finset.mem_insert_of_mem (h fd hold hclient)
    | false =>
      obtain ⟨hne, hold⟩ := Finset.mem_erase.mp hfd
      exact Finset.mem_erase.mpr ⟨hne, Finset.mem_insert_of_mem (h fd hold hclient)⟩
  | closed old eof =>
    obtain ⟨hne, hold⟩ := Finset.mem_erase.mp hfd
    exact Finset.mem_erase.mpr ⟨hne, h fd hold hclient⟩

end Ledger

theorem outcome_closed {s : State} {eventFd fd : Fd} {answers : Answers} {eof : Bool}
    (ho : outcome s eventFd answers = .closed fd eof) : fd = eventFd := by
  rw [outcome] at ho
  split at ho
  · cases haccept : answers.accept <;> simp [haccept] at ho
  · cases hrecv : answers.recv with
    | data chunk =>
      rw [hrecv] at ho
      dsimp only at ho
      split at ho
      · cases ho
      · cases ho
        rfl
    | eof | again | error =>
      rw [hrecv] at ho
      cases ho
      rfl

theorem outcome_placed {s : State} {eventFd fd : Fd} {rest : List Fd} {answers : Answers}
    {setUp : Bool} (hpend : s.pending = eventFd :: rest) (hp : Permitted s (.event answers))
    (ho : outcome s eventFd answers = .placed fd setUp) : fd ≠ s.serverFd := by
  rw [Permitted, hpend] at hp
  rw [outcome] at ho
  dsimp only at hp
  split at hp
  · rename_i hserver
    rw [if_pos hserver] at ho
    cases haccept : answers.accept with
    | none =>
      rw [haccept] at ho
      cases ho
    | some new =>
      rw [haccept] at ho
      cases ho
      exact (hp fd haccept).2.1
  · rename_i hclient
    rw [if_neg hclient] at ho
    cases hrecv : answers.recv with
    | data chunk =>
      rw [hrecv] at ho
      dsimp only at ho
      split at ho <;> cases ho
    | eof | again | error =>
      rw [hrecv] at ho
      cases ho

theorem Tidy.event {s : State} {eventFd : Fd} {rest : List Fd} {answers : Answers} (h : Tidy s)
    (hpend : s.pending = eventFd :: rest) (hp : Permitted s (.event answers)) :
    Tidy (step s (.event answers)) := by
  have hstep : step s (.event answers) =
      handleEvent { s with pending := rest } eventFd answers := by
    rw [step, hpend]
  obtain ⟨hledger, hrest, hserver⟩ := handled_handleEvent { s with pending := rest } eventFd answers
  have hkernel : (step s (.event answers)).kernel =
      (s.ledger.after (outcome s eventFd answers)).kernel := by
    rw [hstep]
    exact congrArg Ledger.kernel hledger
  have hnodup := h.nodup
  rw [hpend, List.nodup_cons] at hnodup
  have hfits := h.fits hpend hp
  rw [← hstep] at hrest hserver
  constructor
  · rw [hkernel, hserver]
    exact Ledger.notMem_after h.server fun setUp ho => outcome_placed hpend hp ho rfl
  · rw [hkernel, hserver]
    exact Ledger.registered_after _ h.registered
  · rw [hrest]
    exact hnodup.2
  · rw [hrest, hkernel, hserver]
    intro fd hfd hclient
    apply Ledger.mem_after hfits (h.pending fd (hpend ▸ List.mem_cons_of_mem _ hfd) hclient)
    -- The batch names each descriptor once, so the one being closed is not among the rest.
    intro eof ho
    exact hnodup.1 (outcome_closed ho ▸ hfd)

theorem Tidy.step {s : State} {i : Input} (h : Tidy s) (hp : Permitted s i) : Tidy (step s i) := by
  cases i with
  | signal => exact ⟨h.server, h.registered, h.nodup, h.pending⟩
  | wait batch =>
    cases batch with
    | none =>
      exact ⟨h.server, h.registered, List.nodup_nil, fun _ hfd => absurd hfd List.not_mem_nil⟩
    | some fds =>
      obtain ⟨_, _, hbatch⟩ := hp
      obtain ⟨hnodup, _, hregistered⟩ := hbatch fds rfl
      exact ⟨h.server, h.registered, hnodup, fun fd hfd => h.registered fd (hregistered fd hfd)⟩
  | event answers =>
    cases hpend : s.pending with
    | nil =>
      rw [Permitted, hpend] at hp
      exact hp.elim
    | cons eventFd rest => exact h.event hpend hp

theorem always_tidy (x : Run) : x.Always Tidy :=
  x.invariant (fun _ => tidy_start) fun _ _ hp h => h.step hp

/-! ## The counters over a run -/

theorem step_event_ledger {s : State} {eventFd : Fd} {rest : List Fd}
    (hpend : s.pending = eventFd :: rest) (answers : Answers) :
    (step s (.event answers)).ledger = s.ledger.after (outcome s eventFd answers) := by
  rw [step, hpend]
  exact (handled_handleEvent { s with pending := rest } eventFd answers).1

theorem balanced_step_iff {s : State} {i : Input} (hp : Permitted s i) (htidy : Tidy s)
    (h : Balanced s) : Balanced (step s i) ↔ Orderly s i := by
  cases i with
  | wait | signal => exact iff_of_true h trivial
  | event answers =>
    cases hpend : s.pending with
    | nil =>
      rw [Permitted, hpend] at hp
      exact hp.elim
    | cons eventFd rest =>
      have hledger := step_event_ledger hpend answers
      rw [orderly_iff hpend, ← Ledger.balanced_after_iff (htidy.fits hpend hp) h, ← hledger]
      rfl

theorem stopsOnLast_step {s : State} {i : Input} (hp : Permitted s i) (htidy : Tidy s)
    (h : Balanced s) (horderly : Orderly s i) : StopsOnLast s i := by
  cases i with
  | wait | signal => trivial
  | event answers =>
    cases hpend : s.pending with
    | nil =>
      rw [Permitted, hpend] at hp
      exact hp.elim
    | cons eventFd rest =>
      rw [orderly_iff hpend] at horderly
      intro hrunning
      have hiff := Ledger.stops_iff (htidy.fits hpend hp) h horderly hrunning
      rw [← step_event_ledger hpend answers] at hiff
      exact hiff

theorem always_balanced_iff (x : Run) : x.Always Balanced ↔ x.EachStep Orderly := by
  apply x.always_iff_eachStep (J := Tidy)
  · intro s hs
    refine ⟨tidy_start hs, ?_⟩
    obtain ⟨serverFd, _, rfl⟩ := hs
    exact ⟨rfl, rfl⟩
  · exact fun s i hp htidy _ _ => htidy.step hp
  · exact fun s i hp htidy h => balanced_step_iff hp htidy h

/-- The two counters stay exact, and the loop stops with its last client, exactly in
the runs that take none of the exits for a failed accept, a failed set-up, a failed
recv or data outside the measuring phase. -/
theorem clients_counted_iff (x : Run) :
    x.Always Balanced ∧ x.EachStep StopsOnLast ↔ x.EachStep Orderly := by
  constructor
  · exact fun h => (always_balanced_iff x).mp h.1
  · intro horderly
    have hbalanced := (always_balanced_iff x).mpr horderly
    refine ⟨hbalanced, x.eachStep_iff.mpr fun n hn => ?_⟩
    exact stopsOnLast_step (x.eachStep_iff.mp x.permits n hn) (always_tidy x n) (hbalanced n)
      (x.eachStep_iff.mp horderly n hn)

/-- Two clients are set up; recv fails for the first and the second closes. -/
def resetClient : List Input :=
  let quiet : Fin 5 → Timeval := fun _ => ⟨0, 0⟩
  [.wait (some [3]), .event ⟨some 4, true, true, .again, quiet⟩, .wait (some [3]),
    .event ⟨some 5, true, true, .again, quiet⟩, .wait (some [4, 5]),
    .event ⟨none, true, true, .error, quiet⟩, .event ⟨none, true, true, .eof, quiet⟩]

theorem initial_start3 : Initial (start 3) := ⟨3, by decide, rfl⟩

theorem permitted_resetClient : Along step Permitted (start 3) resetClient := by decide

def resetClientRun : Run := ⟨start 3, resetClient, initial_start3, permitted_resetClient⟩

/-- No client is left, and the loop still waits for one. -/
theorem stuck_resetClient : resetClientRun.final.kernel.sockets = ∅ ∧
    resetClientRun.final.activeClients = 1 ∧ resetClientRun.final.running = true ∧
    ¬(resetClientRun.Always Balanced ∧ resetClientRun.EachStep StopsOnLast) := by
  have hunbalanced : ¬Balanced resetClientRun.final := by decide
  refine ⟨by decide, by with_unfolding_all decide, by with_unfolding_all decide, ?_⟩
  exact fun h => hunbalanced h.1.final

end ConnectionOrder.ServerExp2
