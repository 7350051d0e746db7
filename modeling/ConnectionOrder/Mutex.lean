import ConnectionOrder.Rotation

/-!
# Threads that act in any order

A program of `n` threads whose turn is always open. The mutex keeps the actions apart
and nothing else: every thread acts `rounds` times, in the order that the scheduler
chooses.
-/

namespace ConnectionOrder.Mutex

open Machine Monitor Rotation

variable {n : Nat} {L ε σ : Type}

/-- `rank` is the number of actions behind a thread, as it counts them itself. -/
structure Laws (p : Program (Fin n) L ε σ) (rounds : Nat) where
  rank : L → Int
  connect_rank : ∀ {i e l}, p.connect i e = some l → rank l = 0
  again_go : ∀ {i l e l'}, p.again i l e = some l' → rank l' = rank l ∧ rank l < rounds
  again_leave : ∀ {i l e}, p.again i l e = none → 0 ≤ rank l → rounds ≤ rank l
  next_rank : ∀ i l, rank (p.next i l) = rank l + 1
  turn_open : ∀ i l s, p.turn i l s = true

/-- The thread that acts in this step. -/
def actors (_ : State (Fin n) L σ) : Input (Fin n) ε → List (Fin n)
  | .act i _ => [i]
  | .connect .. | .again .. | .lock _ | .test _ | .wake _ => []

namespace Laws

variable {p : Program (Fin n) L ε σ} {rounds : Nat} (r : Laws p rounds)
variable {fails : Fin n → Bool} {s s' : State (Fin n) L σ} {input : Input (Fin n) ε}
variable {order : List (Fin n)}

/-- The state after the threads have acted in this order. -/
structure At (fails : Fin n → Bool) (s : State (Fin n) L σ) (order : List (Fin n)) : Prop where
  sound : Sound p s
  alive : ∀ i, fails i = false → Fits r.rank rounds (order.count i) (s.phase i)
  failed : ∀ i, fails i = true → (s.phase i = .fresh ∨ s.phase i = .returned) ∧ order.count i = 0

theorem at_start (shared : σ) : r.At fails (start shared) [] where
  sound := sound_start shared
  alive _ _ := rfl
  failed _ _ := ⟨.inl rfl, rfl⟩

variable {r}

theorem At.not_asleep (h : r.At fails s order) (i : Fin n) (l : L) : s.phase i ≠ .asleep l := by
  intro hphase
  have hclosed := h.sound.asleep i l hphase
  rw [r.turn_open] at hclosed
  cases hclosed

theorem At.wakeUp (h : r.At fails s order) (i : Fin n) : (s.phase i).wakeUp = s.phase i := by
  cases hphase : s.phase i with
  | asleep l => exact absurd hphase (h.not_asleep i l)
  | fresh | outside | ready | holding | entered | returned => rfl

theorem At.fits (h : r.At fails s order) {i : Fin n} {phase : Phase L} (hphase : s.phase i = phase)
    (hloop : phase.inLoop = true) :
    fails i = false ∧ Fits r.rank rounds (order.count i) phase := by
  have hi : fails i = false := by
    rw [← Bool.not_eq_true]
    intro hfails
    rw [← hphase] at hloop
    rcases (h.failed i hfails).1 with hend | hend <;> rw [hend] at hloop <;> cases hloop
  exact ⟨hi, hphase ▸ h.alive i hi⟩

theorem At.count_le (h : r.At fails s order) (i : Fin n) :
    order.count i ≤ if fails i then 0 else rounds := by
  cases hi : fails i with
  | true =>
    rw [if_pos rfl]
    exact Nat.le_of_eq (h.failed i hi).2
  | false =>
    rw [if_neg Bool.false_ne_true]
    have hfits := h.alive i hi
    cases hphase : s.phase i with
    | fresh =>
      rw [hphase] at hfits
      exact Nat.le_trans (Nat.le_of_eq hfits) (Nat.zero_le _)
    | outside l =>
      rw [hphase] at hfits
      exact hfits.2
    | ready l | holding l | entered l | asleep l =>
      rw [hphase] at hfits
      exact Nat.le_of_lt hfits.2
    | returned =>
      rw [hphase] at hfits
      exact Nat.le_of_eq hfits

/-- One thread changes its phase. -/
theorem At.move (h : r.At fails s order) {i : Fin n} {phase : Phase L} {holder : Option (Fin n)}
    (hsound : Sound p { s.move i phase with holder := holder })
    (halive : fails i = false → Fits r.rank rounds (order.count i) phase)
    (hfailed : fails i = true → phase = .returned) :
    r.At fails { s.move i phase with holder := holder } order := by
  constructor
  · exact hsound
  · intro j hj
    change Fits r.rank rounds _ (Function.update s.phase i phase j)
    rcases eq_or_ne j i with rfl | hne
    · rw [Function.update_self]
      exact halive hj
    · rw [Function.update_of_ne hne]
      exact h.alive j hj
  · intro j hj
    change (Function.update s.phase i phase j = _ ∨ Function.update s.phase i phase j = _) ∧ _
    rcases eq_or_ne j i with rfl | hne
    · rw [Function.update_self]
      exact ⟨.inr (hfailed hj), (h.failed j hj).2⟩
    · rw [Function.update_of_ne hne]
      exact h.failed j hj

theorem At.act (h : r.At fails s order) {i : Fin n} {e : ε} {l : L}
    (hphase : s.phase i = .entered l) :
    r.At fails { s.broadcast.move i (.outside (p.next i l)) with
      holder := none, shared := p.act i l e s.shared } (order ++ [i]) := by
  obtain ⟨hconnected, hrank, hlt⟩ := h.fits hphase rfl
  have hcount : ∀ j, (order ++ [i]).count j = order.count j + if j = i then 1 else 0 := by
    intro j
    rw [List.count_append, List.count_singleton']
    simp only [eq_comm]
  constructor
  · exact h.sound.step (.act hphase)
  · intro j hj
    change Fits r.rank rounds _ (Function.update s.broadcast.phase i _ j)
    rw [hcount]
    rcases eq_or_ne j i with rfl | hne
    · rw [Function.update_self, if_pos rfl]
      refine ⟨?_, hlt⟩
      rw [r.next_rank, hrank]
      rfl
    · rw [Function.update_of_ne hne, if_neg hne]
      change Fits r.rank rounds _ (s.phase j).wakeUp
      rw [h.wakeUp]
      exact h.alive j hj
  · intro j hj
    have hne : j ≠ i := by
      rintro rfl
      rw [hconnected] at hj
      cases hj
    change (Function.update s.broadcast.phase i _ j = _ ∨
      Function.update s.broadcast.phase i _ j = _) ∧ _
    rw [Function.update_of_ne hne, hcount, if_neg hne]
    change ((s.phase j).wakeUp = _ ∨ (s.phase j).wakeUp = _) ∧ _
    rw [h.wakeUp]
    exact h.failed j hj

theorem At.step (h : r.At fails s order) (hhonest : Honest p fails input)
    (hmove : Move p s input s') : r.At fails s' (order ++ actors s input) := by
  have hsound := h.sound.step hmove
  cases hmove with
  | @refused i e hphase hconnect =>
    rw [actors, List.append_nil]
    refine h.move hsound (fun hi => ?_) fun _ => rfl
    rw [hhonest.mp hconnect] at hi
    cases hi
  | @connected i e l hphase hconnect =>
    have hi : fails i = false := by
      rw [← Bool.not_eq_true, ← (show p.connect i e = none ↔ fails i = true from hhonest), hconnect]
      exact Option.some_ne_none l
    have hfits := h.alive i hi
    rw [hphase] at hfits
    have hnone : order.count i = 0 := hfits
    rw [actors, List.append_nil]
    refine h.move hsound (fun _ => ?_) fun hfails => ?_
    · rw [hnone]
      exact ⟨r.connect_rank hconnect, Nat.zero_le _⟩
    · rw [hi] at hfails
      cases hfails
  | @leave i e l hphase hagain =>
    obtain ⟨hi, hrank, hle⟩ := h.fits hphase rfl
    rw [actors, List.append_nil]
    refine h.move hsound (fun _ => ?_) fun _ => rfl
    have hdone := r.again_leave hagain (by omega)
    exact le_antisymm hle (by omega)
  | @go i e l l' hphase hagain =>
    obtain ⟨hi, hrank, hle⟩ := h.fits hphase rfl
    obtain ⟨hsame, hlt⟩ := r.again_go hagain
    rw [actors, List.append_nil]
    refine h.move hsound (fun _ => ⟨by omega, by omega⟩) fun hfails => ?_
    rw [hi] at hfails
    cases hfails
  | @lock i l hphase | @enter i l hphase | @sleep i l hphase | @wake i l hphase =>
    obtain ⟨hi, hfits⟩ := h.fits hphase rfl
    rw [actors, List.append_nil]
    refine h.move hsound (fun _ => hfits) fun hfails => ?_
    rw [hi] at hfails
    cases hfails
  | @act i e l hphase => exact h.act hphase

theorem at_final {shared : σ} (x : Run p fails shared) :
    r.At fails x.final (x.observed actors) := by
  apply x.history_induction (P := fun is =>
    r.At fails (run (Monitor.step p) x.start is) (collect (Monitor.step p) actors x.start is))
  · rw [x.begins]
    exact r.at_start shared
  · rintro is input _ ⟨henabled, hhonest⟩ h
    rw [run_snoc, collect_snoc]
    exact h.step hhonest (move_of_enabled henabled)

/-! ## Every run ends with all actions done -/

theorem At.returned_of_stuck [Nonempty ε] (h : r.At fails s order) (hstuck : Stuck p s)
    (i : Fin n) : s.phase i = .returned := by
  have hrest := (stuck_iff h.sound).mp hstuck i
  cases hphase : s.phase i with
  | returned => rfl
  | asleep l => exact absurd hphase (h.not_asleep i l)
  | fresh | outside | ready | holding | entered =>
    rw [hphase] at hrest
    cases hrest

theorem At.count_of_stuck [Nonempty ε] (h : r.At fails s order) (hstuck : Stuck p s)
    (i : Fin n) : order.count i = if fails i then 0 else rounds := by
  cases hi : fails i with
  | true =>
    rw [if_pos rfl]
    exact (h.failed i hi).2
  | false =>
    rw [if_neg Bool.false_ne_true]
    have hfits := h.alive i hi
    rw [h.returned_of_stuck hstuck i] at hfits
    exact hfits

/-- The steps that are left to a thread. -/
def weight (r : Laws p rounds) : Phase L → Nat
  | .fresh => 4 * rounds + 2
  | .outside l => 4 * (rounds - r.rank l).toNat + 1
  | .ready l => 4 * (rounds - r.rank l).toNat
  | .holding l => 4 * (rounds - r.rank l).toNat - 1
  | .entered l => 4 * (rounds - r.rank l).toNat - 2
  | .asleep _ | .returned => 0

def total (r : Laws p rounds) (s : State (Fin n) L σ) : Nat := ∑ i, r.weight (s.phase i)

theorem total_lt {i : Fin n} {phase : Phase L}
    (hself : s'.phase i = phase) (hother : ∀ j, j ≠ i → s'.phase j = s.phase j)
    (h : r.weight phase < r.weight (s.phase i)) : r.total s' < r.total s := by
  apply Finset.sum_lt_sum
  · intro j _
    rcases eq_or_ne j i with rfl | hne
    · rw [hself]
      exact h.le
    · rw [hother j hne]
  · exact ⟨i, Finset.mem_univ i, hself ▸ h⟩

theorem At.total_lt (h : r.At fails s order) (hmove : Move p s input s') :
    r.total s' < r.total s := by
  have hupdate : ∀ i phase, Function.update s.phase i phase i = phase ∧
      ∀ j, j ≠ i → Function.update s.phase i phase j = s.phase j :=
    fun i phase => ⟨Function.update_self _ _ _, fun j hne => Function.update_of_ne hne _ _⟩
  cases hmove with
  | @refused i e hphase hconnect =>
    refine Laws.total_lt (hupdate i _).1 (hupdate i _).2 ?_
    rw [hphase, weight, weight]
    omega
  | @connected i e l hphase hconnect =>
    refine Laws.total_lt (hupdate i _).1 (hupdate i _).2 ?_
    rw [hphase, weight, weight, r.connect_rank hconnect, sub_zero, Int.toNat_natCast]
    omega
  | @leave i e l hphase hagain =>
    refine Laws.total_lt (hupdate i _).1 (hupdate i _).2 ?_
    rw [hphase, weight, weight]
    omega
  | @go i e l l' hphase hagain =>
    refine Laws.total_lt (hupdate i _).1 (hupdate i _).2 ?_
    rw [hphase, weight, weight, (r.again_go hagain).1]
    omega
  | @lock i l hphase hfree =>
    obtain ⟨_, hrank, hlt⟩ := h.fits hphase rfl
    refine Laws.total_lt (hupdate i _).1 (hupdate i _).2 ?_
    rw [hphase, weight, weight]
    omega
  | @enter i l hphase hturn =>
    obtain ⟨_, hrank, hlt⟩ := h.fits hphase rfl
    refine Laws.total_lt (hupdate i _).1 (hupdate i _).2 ?_
    rw [hphase, weight, weight]
    omega
  | @sleep i l hphase hturn =>
    rw [r.turn_open] at hturn
    cases hturn
  | @act i e l hphase =>
    obtain ⟨_, hrank, hlt⟩ := h.fits hphase rfl
    refine Laws.total_lt (Function.update_self i _ _) (fun j hne => ?_) ?_
    · exact (Function.update_of_ne hne _ _).trans (h.wakeUp j)
    · rw [hphase, weight, weight, r.next_rank]
      omega
  | @wake i l hphase => exact absurd hphase (h.not_asleep i l)

theorem length_le (r : Laws p rounds) {shared : σ} (x : Run p fails shared) :
    x.inputs.length ≤ n * (4 * rounds + 2) := by
  have hsteps : x.inputs.length + r.total x.final ≤ r.total x.start := by
    apply x.history_induction (P := fun is =>
      is.length + r.total (run (Monitor.step p) x.start is) ≤ r.total x.start)
    · rw [List.length_nil, run_nil, Nat.zero_add]
    · intro is input halong hp ih
      have h : r.At fails (run (Monitor.step p) x.start is) _ :=
        at_final ⟨x.start, is, x.begins, halong⟩
      have hlt := h.total_lt (move_of_enabled hp.1)
      rw [List.length_append, List.length_singleton, run_snoc]
      omega
  have hstart : r.total x.start = n * (4 * rounds + 2) := by
    rw [x.begins]
    simp [total, Monitor.start, weight]
  omega

/-! ## Every order happens -/

theorem exists_snoc {shared : σ} (x : Run p fails shared) (input : Input (Fin n) ε)
    (hhonest : Honest p fails input) (hmove : Move p x.final input s') :
    ∃ y : Run p fails shared, y.final = s' ∧
      y.observed actors = x.observed actors ++ actors x.final input := by
  obtain ⟨henabled, hstep⟩ := enabled_of_move hmove
  have hpermitted : Permitted p fails x.final input := ⟨henabled, hhonest⟩
  refine ⟨x.snoc input hpermitted, ?_, collect_snoc actors x.start x.inputs input⟩
  rw [x.snoc_final, hstep]

/-- No thread is in its critical section or in front of it. -/
def Idle (fails : Fin n → Bool) (s : State (Fin n) L σ) : Prop :=
  ∀ i, fails i = false → s.phase i = .fresh ∨ ∃ l, s.phase i = .outside l

theorem At.free_of_idle (h : r.At fails s order) (hidle : Idle fails s) : s.holder = none := by
  cases hholder : s.holder with
  | none => rfl
  | some i =>
    have hlock := (h.sound.lock i).mpr hholder
    cases hi : fails i with
    | true =>
      rcases (h.failed i hi).1 with hphase | hphase <;> rw [hphase] at hlock <;> cases hlock
    | false =>
      rcases hidle i hi with hphase | ⟨l, hphase⟩ <;> rw [hphase] at hlock <;> cases hlock

theorem exists_outside {shared : σ}
    (hconnect : ∀ i, fails i = false → ∃ e l, p.connect i e = some l) (x : Run p fails shared)
    (hidle : Idle fails x.final) {i : Fin n} (hi : fails i = false) :
    ∃ (y : Run p fails shared) (l : L), y.observed actors = x.observed actors ∧
      Idle fails y.final ∧ y.final.phase i = .outside l := by
  rcases hidle i hi with hphase | ⟨l, hphase⟩
  · obtain ⟨e, l, he⟩ := hconnect i hi
    have hhonest : Honest p fails (.connect i e) := by
      refine iff_of_false ?_ ?_
      · rw [he]
        exact Option.some_ne_none l
      · rw [hi]
        exact Bool.false_ne_true
    obtain ⟨y, hfinal, hobserved⟩ := exists_snoc x (.connect i e) hhonest (.connected hphase he)
    refine ⟨y, l, hobserved.trans (List.append_nil _), fun j hj => ?_, ?_⟩
    · rw [hfinal]
      change Function.update x.final.phase i _ j = _ ∨ ∃ l', Function.update x.final.phase i _ j = _
      rcases eq_or_ne j i with rfl | hne
      · exact .inr ⟨l, Function.update_self _ _ _⟩
      · rw [Function.update_of_ne hne]
        exact hidle j hj
    · rw [hfinal]
      exact Function.update_self _ _ _
  · exact ⟨x, l, rfl, hidle, hphase⟩

/-- A thread goes once round its loop while all others rest. -/
theorem exists_turn (r : Laws p rounds) {shared : σ} (e : ε) (x : Run p fails shared)
    (hidle : Idle fails x.final) {i : Fin n} {l : L} (hphase : x.final.phase i = .outside l)
    (hlt : (x.observed actors).count i < rounds) :
    ∃ y : Run p fails shared, y.observed actors = x.observed actors ++ [i] ∧
      Idle fails y.final := by
  have h : r.At fails x.final (x.observed actors) := at_final x
  obtain ⟨_, hrank, _⟩ := h.fits hphase rfl
  obtain ⟨l', hagain⟩ : ∃ l', p.again i l e = some l' := by
    cases hagain : p.again i l e with
    | some l' => exact ⟨l', rfl⟩
    | none =>
      have hdone := r.again_leave hagain (by omega)
      omega
  have hself : ∀ phases : Fin n → Phase L, ∀ phase, Function.update phases i phase i = phase :=
    fun phases phase => Function.update_self i phase phases
  obtain ⟨x₁, hx₁, hobserved₁⟩ := exists_snoc x (.again i e) trivial (.go hphase hagain)
  have hfree : x₁.final.holder = none := by
    rw [hx₁]
    exact h.free_of_idle hidle
  have hready : x₁.final.phase i = .ready l' := by
    rw [hx₁]
    exact hself _ _
  obtain ⟨x₂, hx₂, hobserved₂⟩ := exists_snoc x₁ (.lock i) trivial (.lock hready hfree)
  have hholding : x₂.final.phase i = .holding l' := by
    rw [hx₂]
    exact hself _ _
  obtain ⟨x₃, hx₃, hobserved₃⟩ :=
    exists_snoc x₂ (.test i) trivial (.enter hholding (r.turn_open _ _ _))
  have hentered : x₃.final.phase i = .entered l' := by
    rw [hx₃]
    exact hself _ _
  obtain ⟨y, hy, hobserved⟩ := exists_snoc x₃ (.act i e) trivial (.act hentered)
  refine ⟨y, ?_, fun j hj => ?_⟩
  · rw [hobserved, hobserved₃, hobserved₂, hobserved₁]
    simp only [actors, List.append_nil]
  · rw [hy]
    change Function.update x₃.final.broadcast.phase i _ j = _ ∨
      ∃ l'', Function.update x₃.final.broadcast.phase i _ j = _
    rcases eq_or_ne j i with rfl | hne
    · exact .inr ⟨_, Function.update_self _ _ _⟩
    · have hsame : x₃.final.phase j = x.final.phase j := by
        rw [hx₃]
        change Function.update x₂.final.phase i _ j = _
        rw [Function.update_of_ne hne, hx₂]
        change Function.update x₁.final.phase i _ j = _
        rw [Function.update_of_ne hne, hx₁]
        exact Function.update_of_ne hne _ _
      rw [Function.update_of_ne hne]
      change (x₃.final.phase j).wakeUp = _ ∨ ∃ l'', (x₃.final.phase j).wakeUp = _
      rw [hsame]
      rcases hidle j hj with hrest | ⟨l'', hrest⟩ <;> rw [hrest]
      · exact .inl rfl
      · exact .inr ⟨l'', rfl⟩

/-- Exactly the orders in which no thread acts too often happen. -/
theorem exists_run_iff (r : Laws p rounds) {shared : σ} [Nonempty ε]
    (hconnect : ∀ i, fails i = false → ∃ e l, p.connect i e = some l) :
    (∃ x : Run p fails shared, x.observed actors = order) ↔
      ∀ i, order.count i ≤ if fails i then 0 else rounds := by
  constructor
  · rintro ⟨x, rfl⟩ i
    have h : r.At fails x.final (x.observed actors) := at_final x
    exact h.count_le i
  · have hidle : (∀ i, order.count i ≤ if fails i then 0 else rounds) →
        ∃ x : Run p fails shared, x.observed actors = order ∧ Idle fails x.final := by
      induction order using List.reverseRecOn with
      | nil => exact fun _ => ⟨Execution.empty (start shared) rfl, rfl, fun _ _ => .inl rfl⟩
      | append_singleton order i ih =>
        intro hcount
        have hbefore : ∀ j, order.count j ≤ if fails j then 0 else rounds := by
          intro j
          have hj := hcount j
          rw [List.count_append] at hj
          omega
        obtain ⟨x, hx, hrest⟩ := ih hbefore
        have hlast := hcount i
        rw [List.count_append, List.count_singleton_self] at hlast
        have hi : fails i = false := by
          rw [← Bool.not_eq_true]
          intro hfails
          rw [if_pos hfails] at hlast
          omega
        rw [if_neg (by rw [hi]; exact Bool.false_ne_true)] at hlast
        obtain ⟨y, l, hy, hyidle, hphase⟩ :=
          exists_outside hconnect x hrest hi
        obtain ⟨z, hz, hzidle⟩ :=
          r.exists_turn (Classical.arbitrary ε) y hyidle hphase (by rw [hy, hx]; omega)
        exact ⟨z, by rw [hz, hy, hx], hzidle⟩
    intro hcount
    obtain ⟨x, hx, _⟩ := hidle hcount
    exact ⟨x, hx⟩

end Laws

end ConnectionOrder.Mutex
