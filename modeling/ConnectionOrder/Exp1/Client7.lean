import ConnectionOrder.Exp1.Client8
import ConnectionOrder.Mutex

/-!
# client7

Two connections, each with a log file of its own. The mutex keeps the critical sections
apart, but there is no turn. What send returns is not looked at. usleep leaves no trace
in the model.
-/

namespace ConnectionOrder.Client7

open Machine Monitor Rotation Scan Mutex
open ClientFinal (connId)
open Client8 (line snprintf packetSize)

def threads : Nat := 2

/-- Whether connect and fopen succeed, and how many bytes send takes. -/
structure Answer where
  connected : Bool
  opened : Bool
  accepted : Nat

instance : Nonempty Answer := ⟨⟨false, false, 0⟩⟩

/-- The lines of each log file and the bytes of each socket. -/
structure Shared where
  logfile : Fin threads → List (List Char)
  sock : Fin threads → List Char

def initial : Shared := ⟨fun _ => [], fun _ => []⟩

/-- A thread keeps its loop index. -/
def sendPackets (threadPackets : Int32) : Program (Fin threads) Int Answer Shared where
  connect _ e :=
    if ¬e.connected then none
    else if ¬e.opened then none
    else some 1
  again _ i _ := if i ≤ threadPackets.toInt then some i else none
  turn _ _ _ := true
  act thread i e s :=
    let packet := snprintf packetSize (line (connId thread) i)
    { sock := Function.update s.sock thread (s.sock thread ++ packet.take e.accepted)
      logfile := Function.update s.logfile thread (s.logfile thread ++ [line (connId thread) i]) }
  next _ i := i + 1

def rounds (threadPackets : Int32) : Nat := threadPackets.toInt.toNat

variable {threadPackets : Int32}

section Laws

variable {thread : Fin threads} {e : Answer} {i i' : Int}

theorem connect_eq (h : (sendPackets threadPackets).connect thread e = some i) : i - 1 = 0 := by
  simp only [sendPackets, Option.ite_none_left_eq_some, Option.some.injEq] at h
  omega

theorem again_eq_some (h : (sendPackets threadPackets).again thread i e = some i') :
    i' - 1 = i - 1 ∧ i - 1 < rounds threadPackets := by
  simp only [sendPackets, Option.ite_none_right_eq_some, Option.some.injEq] at h
  rw [rounds]
  omega

theorem again_eq_none (h : (sendPackets threadPackets).again thread i e = none)
    (hpos : 0 ≤ i - 1) : rounds threadPackets ≤ i - 1 := by
  simp only [sendPackets, ite_eq_right_iff, reduceCtorEq, imp_false] at h
  rw [rounds]
  omega

theorem next_eq (i : Int) : (sendPackets threadPackets).next thread i - 1 = i - 1 + 1 := by
  change i + 1 - 1 = i - 1 + 1
  omega

end Laws

def mutex (threadPackets : Int32) :
    Mutex.Laws (sendPackets threadPackets) (rounds threadPackets) where
  rank i := i - 1
  connect_rank := connect_eq
  again_go := again_eq_some
  again_leave := again_eq_none
  next_rank _ := next_eq
  turn_open _ _ _ := rfl

abbrev Run (threadPackets : Int32) (fails : Fin threads → Bool) :=
  Rotation.Run (sendPackets threadPackets) fails initial

/-- The first `k` lines of a connection. -/
def packets (thread : Fin threads) (k : Nat) : List (List Char) :=
  (List.range k).map fun j => line (connId thread) ((j : Nat) + 1)

theorem packets_succ (thread : Fin threads) (k : Nat) :
    packets thread (k + 1) = packets thread k ++ [line (connId thread) (k + 1)] := by
  rw [packets, packets, List.range_succ, List.map_append]
  rfl

/-- send takes the whole packet. -/
def Complete (s : State (Fin threads) Int Shared) : Input (Fin threads) Answer → Prop
  | .act thread e => ∀ i, s.phase thread = .entered i → (line (connId thread) i).length ≤ e.accepted
  | .connect .. | .again .. | .lock _ | .test _ | .wake _ => True

theorem snprintf_line {thread : Fin threads} {k : Nat} (h : k < rounds threadPackets) {i : Int}
    (hi : i = k + 1) : snprintf packetSize (line (connId thread) i) = line (connId thread) i :=
  Client8.snprintf_line (c := ⟨threads, threadPackets, by decide⟩) thread h hi

/-- Each log file holds the lines of its connection in order, however the critical
sections of the two follow each other. -/
theorem logfile_eq {fails : Fin threads → Bool} (x : Run threadPackets fails)
    (thread : Fin threads) :
    x.final.shared.logfile thread = packets thread ((x.observed actors).count thread) ∧
    (x.EachStep Complete →
      x.final.shared.sock thread = (x.final.shared.logfile thread).flatten) := by
  apply x.history_induction (P := fun is =>
    (run (step (sendPackets threadPackets)) x.start is).shared.logfile thread =
      packets thread ((collect (step (sendPackets threadPackets)) actors x.start is).count thread) ∧
    (Along (step (sendPackets threadPackets)) Complete x.start is →
      (run (step (sendPackets threadPackets)) x.start is).shared.sock thread =
        ((run (step (sendPackets threadPackets)) x.start is).shared.logfile thread).flatten))
  · rw [x.begins]
    exact ⟨rfl, fun _ => rfl⟩
  · rintro is input halong ⟨henabled, _⟩ ⟨hfile, hsock⟩
    have h : (mutex threadPackets).At fails (run (step (sendPackets threadPackets)) x.start is)
        (collect (step (sendPackets threadPackets)) actors x.start is) :=
      Mutex.Laws.at_final ⟨x.start, is, x.begins, halong⟩
    have hmove := move_of_enabled henabled
    rw [run_snoc, collect_snoc, along_snoc]
    generalize run (step (sendPackets threadPackets)) x.start is = s at *
    generalize step (sendPackets threadPackets) s input = s' at hmove ⊢
    generalize collect (step (sendPackets threadPackets)) actors x.start is = order at *
    cases hmove with
    | refused | connected | leave | go | lock | enter | sleep | wake =>
      rw [actors, List.append_nil]
      exact ⟨hfile, fun hcomplete => hsock hcomplete.1⟩
    | @act other e i hphase =>
      obtain ⟨_, hrank, hlt⟩ := h.fits hphase rfl
      have hi : i = (order.count other : Int) + 1 := Int.sub_eq_iff_eq_add.mp hrank
      rw [actors, List.count_append]
      dsimp only [sendPackets]
      rcases eq_or_ne thread other with rfl | hne
      · rw [Function.update_self, Function.update_self, List.count_singleton_self, packets_succ,
          hfile, hi]
        refine ⟨rfl, fun hcomplete => ?_⟩
        have hall := hcomplete.2 i hphase
        rw [snprintf_line hlt rfl, List.take_of_length_le (hi ▸ hall), List.flatten_append,
          hsock hcomplete.1, hfile, List.flatten_singleton]
      · rw [Function.update_of_ne hne, Function.update_of_ne hne,
          List.count_eq_zero_of_not_mem (fun hmem => hne (List.mem_singleton.mp hmem)),
          Nat.add_zero]
        exact ⟨hfile, fun hcomplete => hsock hcomplete.1⟩

/-- In every interleaving each log file and, if send takes what it is given, each socket
has the packets of its connection in order. Every run ends, with all packets of the
connections that came about. -/
theorem sends_own_packets {fails : Fin threads → Bool} (x : Run threadPackets fails) :
    (∀ thread, x.final.shared.logfile thread =
      packets thread ((x.observed actors).count thread)) ∧
    (x.EachStep Complete → ∀ thread,
      x.final.shared.sock thread = (x.final.shared.logfile thread).flatten) ∧
    (Stuck (sendPackets threadPackets) x.final → ∀ thread,
      x.final.phase thread = .returned ∧ x.final.shared.logfile thread =
        packets thread (if fails thread then 0 else rounds threadPackets)) ∧
    x.inputs.length ≤ threads * (4 * rounds threadPackets + 2) := by
  have h : (mutex threadPackets).At fails x.final (x.observed actors) := Mutex.Laws.at_final x
  refine ⟨fun thread => (logfile_eq x thread).1, fun hall thread => (logfile_eq x thread).2 hall,
    fun hstuck thread => ⟨h.returned_of_stuck hstuck thread, ?_⟩,
    (mutex threadPackets).length_le x⟩
  rw [(logfile_eq x thread).1, h.count_of_stuck hstuck thread]

/-- Nothing makes the connections alternate: their packets follow each other in every
order in which none has more than its own. -/
theorem every_order_happens (fails : Fin threads → Bool) (order : List (Fin threads)) :
    (∃ x : Run threadPackets fails, x.observed actors = order) ↔
      ∀ thread, order.count thread ≤ if fails thread then 0 else rounds threadPackets := by
  apply (mutex threadPackets).exists_run_iff
  intro thread _
  exact ⟨⟨true, true, 0⟩, 1, rfl⟩

end ConnectionOrder.Client7
