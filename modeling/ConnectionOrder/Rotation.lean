import ConnectionOrder.Monitor
import Mathlib.Algebra.BigOperators.Fin
import Mathlib.Algebra.Order.BigOperators.Group.Finset
import Mathlib.Data.Fintype.BigOperators

/-!
# Threads that act in rotation

A program of `n` threads in which the turn goes round: the `m`-th action, counted
from 0, belongs to thread `m % n`, and every thread acts `rounds` times. Threads may
fail to connect; then they never act.
-/

namespace ConnectionOrder.Rotation

open Machine Monitor

/-! ## How often a thread acts -/

/-- The next position is in the same round, or it starts the next one. -/
theorem succ_div_mod {n : Nat} (hn : 0 < n) (m : Nat) :
    (m % n + 1 < n ∧ (m + 1) / n = m / n ∧ (m + 1) % n = m % n + 1) ∨
      (m % n + 1 = n ∧ (m + 1) / n = m / n + 1 ∧ (m + 1) % n = 0) := by
  have hm := Nat.mod_add_div m n
  cases lt_or_eq_of_le (Nat.succ_le_of_lt (Nat.mod_lt m hn)) with
  | inl hlt => exact .inl ⟨hlt, (Nat.div_mod_unique hn).mpr ⟨by omega, hlt⟩⟩
  | inr heq =>
    have hnext : 0 + n * (m / n + 1) = m + 1 := by
      rw [Nat.mul_succ]
      omega
    exact .inr ⟨heq, (Nat.div_mod_unique hn).mpr ⟨hnext, hn⟩⟩

/-- The number of actions of thread `i` among the first `m`. -/
def taken (n m i : Nat) : Nat := m / n + if i < m % n then 1 else 0

@[simp] theorem taken_zero (n i : Nat) : taken n 0 i = 0 := by
  simp [taken]

@[simp] theorem taken_owner (n m : Nat) : taken n m (m % n) = m / n := by
  simp [taken]

theorem le_taken (n m i : Nat) : m / n ≤ taken n m i := Nat.le_add_right _ _

theorem taken_succ {n i : Nat} (hi : i < n) (m : Nat) :
    taken n (m + 1) i = taken n m i + if i = m % n then 1 else 0 := by
  rw [taken, taken]
  rcases succ_div_mod (Nat.zero_lt_of_lt hi) m with ⟨hlt, hdiv, hmod⟩ | ⟨heq, hdiv, hmod⟩
  · rw [hdiv, hmod]
    split_ifs <;> omega
  · rw [hdiv, hmod]
    split_ifs <;> omega

theorem taken_of_lt {n m i : Nat} (h : m < n) : taken n m i = if i < m then 1 else 0 := by
  rw [taken, Nat.div_eq_of_lt h, Nat.mod_eq_of_lt h, Nat.zero_add]

/-! ## The program -/

variable {n : Nat} {L ε σ : Type}

/-- The owners of the first `m` actions. -/
def owners (n m : Nat) : List Nat := (List.range m).map (· % n)

theorem owners_succ (n m : Nat) : owners n (m + 1) = owners n m ++ [m % n] := by
  rw [owners, owners, List.range_succ, List.map_append]
  rfl

theorem count_owners {i : Nat} (hi : i < n) (m : Nat) : (owners n m).count i = taken n m i := by
  induction m with
  | zero => simp [owners]
  | succ m ih =>
    rw [owners_succ, List.count_append, ih, taken_succ hi, List.count_singleton']
    simp only [eq_comm]

/-- A program whose turn goes round. `rank` is the number of actions behind a thread,
as it counts them itself, and `acted` the number that the shared state shows; `owns`
says whose turn it is, and `Shows` that the shared state is the one after `m` actions. -/
structure Laws (p : Program (Fin n) L ε σ) (rounds : Nat) where
  rank : L → Int
  owns : σ → Fin n → Prop
  acted : σ → Fin n → Nat
  Shows : σ → Nat → Prop
  connect_rank : ∀ {i e l}, p.connect i e = some l → rank l = 0
  again_go : ∀ {i l e l'}, p.again i l e = some l' → rank l' = rank l ∧ rank l < rounds
  again_leave : ∀ {i l e}, p.again i l e = none → 0 ≤ rank l → rounds ≤ rank l
  next_rank : ∀ i l, rank (p.next i l) = rank l + 1
  owns_iff : ∀ {s m}, Shows s m → ∀ i, owns s i ↔ i.val = m % n
  acted_eq : ∀ {s m}, Shows s m → ∀ i : Fin n, acted s i = taken n m i
  turn_iff : ∀ {s m}, Shows s m → ∀ (i : Fin n) (l : L), rank l = taken n m i →
    (p.turn i l s = true ↔ i.val = m % n)
  act_shows : ∀ {s m}, Shows s m → m / n < rounds → ∀ (i : Fin n) (l : L) (e : ε),
    i.val = m % n → rank l = (m / n : Nat) → Shows (p.act i l e s) (m + 1)

/-- The environment lets exactly these threads connect. -/
def Honest (p : Program (Fin n) L ε σ) (fails : Fin n → Bool) : Input (Fin n) ε → Prop
  | .connect i e => p.connect i e = none ↔ fails i = true
  | .again .. | .lock _ | .test _ | .act .. | .wake _ => True

instance [DecidableEq L] (p : Program (Fin n) L ε σ) (fails : Fin n → Bool) :
    (input : Input (Fin n) ε) → Decidable (Honest p fails input)
  | .connect _ _ => inferInstanceAs (Decidable (_ ↔ _))
  | .again .. | .lock _ | .test _ | .act .. | .wake _ => .isTrue trivial

def Permitted (p : Program (Fin n) L ε σ) (fails : Fin n → Bool) (s : State (Fin n) L σ)
    (input : Input (Fin n) ε) : Prop :=
  Enabled p s input ∧ Honest p fails input

instance [DecidableEq L] (p : Program (Fin n) L ε σ) (fails : Fin n → Bool)
    (s : State (Fin n) L σ) (input : Input (Fin n) ε) : Decidable (Permitted p fails s input) :=
  inferInstanceAs (Decidable (_ ∧ _))

abbrev Run (p : Program (Fin n) L ε σ) (fails : Fin n → Bool) (shared : σ) :=
  Execution (step p) (fun s => s = start shared) (Permitted p fails)

/-- A thread's phase after `c` of its `rounds` actions. -/
def Fits (rank : L → Int) (rounds c : Nat) : Phase L → Prop
  | .fresh => c = 0
  | .outside l => rank l = c ∧ c ≤ rounds
  | .ready l | .holding l | .entered l | .asleep l => rank l = c ∧ c < rounds
  | .returned => c = rounds

namespace Laws

variable {p : Program (Fin n) L ε σ} {rounds : Nat} (r : Laws p rounds)
variable {fails : Fin n → Bool} {s s' : State (Fin n) L σ} {input : Input (Fin n) ε} {m : Nat}

/-- The state after `m` actions. A thread that fails to connect stops the rotation
when its turn comes. -/
structure At (fails : Fin n → Bool) (s : State (Fin n) L σ) (m : Nat) : Prop where
  sound : Sound p s
  shows : r.Shows s.shared m
  bounded : m ≤ n * rounds
  alive : ∀ i, fails i = false → Fits r.rank rounds (taken n m i) (s.phase i)
  failed : ∀ i, fails i = true → (s.phase i = .fresh ∨ s.phase i = .returned) ∧ m ≤ i

theorem at_start {shared : σ} (h : r.Shows shared 0) : r.At fails (start shared) 0 := by
  constructor
  · exact sound_start shared
  · exact h
  · exact Nat.zero_le _
  · exact fun i _ => taken_zero n i
  · exact fun i _ => ⟨.inl rfl, Nat.zero_le _⟩

/-- The other threads keep their number of actions when `i` acts. -/
theorem taken_succ_of_ne {i j : Fin n} (hi : i.val = m % n) (hne : j ≠ i) :
    taken n (m + 1) j = taken n m j := by
  rw [taken_succ j.isLt, if_neg, Nat.add_zero]
  intro hj
  exact hne (Fin.ext (hj.trans hi.symm))

variable {r}

/-- One thread changes its phase. -/
theorem At.move (h : r.At fails s m) {i : Fin n} {phase : Phase L} {holder : Option (Fin n)}
    (hsound : Sound p { s.move i phase with holder := holder })
    (halive : fails i = false → Fits r.rank rounds (taken n m i) phase)
    (hfailed : fails i = true → phase = .returned) :
    r.At fails { s.move i phase with holder := holder } m := by
  constructor
  · exact hsound
  · exact h.shows
  · exact h.bounded
  · intro j hj
    change Fits r.rank rounds _ (Function.update s.phase i phase j)
    rcases eq_or_ne j i with rfl | hne
    · rw [Function.update_self]
      exact halive hj
    · rw [Function.update_of_ne hne]
      exact h.alive j hj
  · intro j hj
    change (Function.update s.phase i phase j = _ ∨ Function.update s.phase i phase j = _) ∧ _
    rcases eq_or_ne j i with rfl | hne
    · rw [Function.update_self]
      exact ⟨.inr (hfailed hj), (h.failed j hj).2⟩
    · rw [Function.update_of_ne hne]
      exact h.failed j hj

/-- A thread that got past its connect has not failed. -/
theorem At.fits (h : r.At fails s m) {i : Fin n} {phase : Phase L} (hphase : s.phase i = phase)
    (hloop : phase.inLoop = true) :
    fails i = false ∧ Fits r.rank rounds (taken n m i) phase := by
  have hi : fails i = false := by
    rw [← Bool.not_eq_true]
    intro hfails
    rw [← hphase] at hloop
    rcases (h.failed i hfails).1 with hend | hend <;> rw [hend] at hloop <;> cases hloop
  exact ⟨hi, hphase ▸ h.alive i hi⟩

theorem At.owner (h : r.At fails s m) {i : Fin n} {l : L} (hphase : s.phase i = .entered l) :
    i.val = m % n ∧ r.rank l = (m / n : Nat) ∧ m / n < rounds := by
  obtain ⟨_, hrank, hlt⟩ := h.fits hphase rfl
  have hi := (r.turn_iff h.shows i l hrank).mp (h.sound.entered i l hphase)
  rw [hi, taken_owner] at hrank hlt
  exact ⟨hi, hrank, hlt⟩

theorem At.act (h : r.At fails s m) {i : Fin n} {e : ε} {l : L} (hphase : s.phase i = .entered l) :
    r.At fails { s.broadcast.move i (.outside (p.next i l)) with
      holder := none, shared := p.act i l e s.shared } (m + 1) := by
  obtain ⟨hi, hrank, hlt⟩ := h.owner hphase
  obtain ⟨hconnected, _⟩ := h.fits hphase rfl
  have hpos : 0 < n := Nat.zero_lt_of_lt i.isLt
  constructor
  · exact h.sound.step (.act hphase)
  · exact r.act_shows h.shows hlt i l e hi hrank
  · rw [Nat.mul_comm]
    exact (Nat.div_lt_iff_lt_mul hpos).mp hlt
  · intro j hj
    change Fits r.rank rounds _ (Function.update s.broadcast.phase i _ j)
    rcases eq_or_ne j i with rfl | hne
    · rw [Function.update_self, taken_succ j.isLt, if_pos hi, hi, taken_owner]
      refine ⟨?_, hlt⟩
      rw [r.next_rank, hrank]
      rfl
    · rw [Function.update_of_ne hne, taken_succ_of_ne hi hne]
      have hfits := h.alive j hj
      change Fits r.rank rounds _ (s.phase j).wakeUp
      cases hother : s.phase j <;> rw [hother] at hfits <;> exact hfits
  · intro j hj
    have hne : j ≠ i := by
      rintro rfl
      rw [hconnected] at hj
      cases hj
    obtain ⟨hends, hle⟩ := h.failed j hj
    change (Function.update s.broadcast.phase i _ j = _ ∨
      Function.update s.broadcast.phase i _ j = _) ∧ _
    rw [Function.update_of_ne hne]
    constructor
    · change (s.phase j).wakeUp = _ ∨ (s.phase j).wakeUp = _
      rcases hends with hfirst | hlast
      · exact .inl (by rw [hfirst]; rfl)
      · exact .inr (by rw [hlast]; rfl)
    · -- The turn has not passed a thread that failed: position j would be its own.
      refine Nat.succ_le_of_lt (lt_of_le_of_ne hle fun heq => hne (Fin.ext ?_))
      rw [hi, heq, Nat.mod_eq_of_lt j.isLt]

theorem At.step (h : r.At fails s m) (hhonest : Honest p fails input) (hmove : Move p s input s') :
    r.At fails s' (m + input.acts) := by
  have hsound := h.sound.step hmove
  cases hmove with
  | @refused i e hphase hconnect =>
    refine h.move hsound (fun hi => ?_) fun _ => rfl
    rw [hhonest.mp hconnect] at hi
    cases hi
  | @connected i e l hphase hconnect =>
    have hi : fails i = false := by
      rw [← Bool.not_eq_true, ← (show p.connect i e = none ↔ fails i = true from hhonest), hconnect]
      exact Option.some_ne_none l
    have hfits := h.alive i hi
    rw [hphase] at hfits
    refine h.move hsound (fun _ => ?_) fun hfails => ?_
    · refine ⟨?_, ?_⟩
      · rw [r.connect_rank hconnect, show taken n m i = 0 from hfits]
        rfl
      · rw [show taken n m i = 0 from hfits]
        exact Nat.zero_le _
    · rw [hi] at hfails
      cases hfails
  | @leave i e l hphase hagain =>
    obtain ⟨hi, hrank, hle⟩ := h.fits hphase rfl
    refine h.move hsound (fun _ => ?_) fun _ => rfl
    have hdone := r.again_leave hagain (by omega)
    exact le_antisymm hle (by omega)
  | @go i e l l' hphase hagain =>
    obtain ⟨hi, hrank, hle⟩ := h.fits hphase rfl
    obtain ⟨hsame, hlt⟩ := r.again_go hagain
    refine h.move hsound (fun _ => ⟨by omega, by omega⟩) fun hfails => ?_
    rw [hi] at hfails
    cases hfails
  | @lock i l hphase | @enter i l hphase | @sleep i l hphase | @wake i l hphase =>
    obtain ⟨hi, hfits⟩ := h.fits hphase rfl
    refine h.move hsound (fun _ => hfits) fun hfails => ?_
    rw [hi] at hfails
    cases hfails
  | @act i e l hphase => exact h.act hphase

theorem at_run {shared : σ} (hstart : r.Shows shared 0) (x : Run p fails shared) :
    x.Always fun s => ∃ m, r.At fails s m := by
  apply x.invariant (P := fun s => ∃ m, r.At fails s m)
  · rintro _ rfl
    exact ⟨0, at_start r hstart⟩
  · rintro s input ⟨henabled, hhonest⟩ ⟨m, h⟩
    exact ⟨_, h.step hhonest (move_of_enabled henabled)⟩

/-! ## Where the threads stop -/

theorem At.not_owner_of_asleep (h : r.At fails s m) {i : Fin n} {l : L}
    (hphase : s.phase i = .asleep l) : i.val ≠ m % n ∧ taken n m i < rounds := by
  obtain ⟨_, hrank, hlt⟩ := h.fits hphase rfl
  refine ⟨fun hi => ?_, hlt⟩
  have hturn := (r.turn_iff h.shows i l hrank).mpr hi
  rw [h.sound.asleep i l hphase] at hturn
  cases hturn

theorem At.returned_owner (h : r.At fails s m) {i : Fin n} (hi : i.val = m % n)
    (halive : fails i = false) (hphase : s.phase i = .returned) : m = n * rounds := by
  have hfits := h.alive i halive
  rw [hphase, hi] at hfits
  have hdiv : m / n = rounds := (taken_owner n m).symm.trans hfits
  have hle := Nat.div_mul_le_self m n
  rw [hdiv, Nat.mul_comm] at hle
  exact le_antisymm h.bounded hle

theorem At.returned_of_done (h : r.At fails s (n * rounds)) {i : Fin n}
    (hrest : (s.phase i).atRest = true) : s.phase i = .returned := by
  cases hphase : s.phase i with
  | returned => rfl
  | asleep l =>
    have hlt := (h.not_owner_of_asleep hphase).2
    have hle := le_taken n (n * rounds) i
    rw [Nat.mul_div_cancel_left _ (Nat.zero_lt_of_lt i.isLt)] at hle
    omega
  | fresh | outside | ready | holding | entered =>
    rw [hphase] at hrest
    cases hrest

/-- The threads stop when everything has been sent, or in front of one that failed. -/
theorem At.stuck_cases [Nonempty ε] (h : r.At fails s m) (hstuck : Stuck p s) :
    m = n * rounds ∨ ∃ f : Fin n, fails f = true ∧ m = f := by
  have hrest := (stuck_iff h.sound).mp hstuck
  cases Nat.eq_zero_or_pos n with
  | inl hzero =>
    subst hzero
    exact .inl (by have := h.bounded; omega)
  | inr hpos =>
    let owner : Fin n := ⟨m % n, Nat.mod_lt m hpos⟩
    cases hfails : fails owner with
    | true =>
      have hle : m ≤ m % n := (h.failed owner hfails).2
      exact .inr ⟨owner, hfails, le_antisymm hle (Nat.mod_le m n)⟩
    | false =>
      cases hphase : s.phase owner with
      | returned => exact .inl (h.returned_owner rfl hfails hphase)
      | asleep l => exact absurd rfl (h.not_owner_of_asleep hphase).1
      | fresh | outside | ready | holding | entered =>
        have hmoving := hrest owner
        rw [hphase] at hmoving
        cases hmoving

/-! ## The threads stop at all -/

/-- Steps that are left to a thread before its next action or the end, if nobody
wakes it; an action costs more than all the wake-ups it causes. -/
def weight (r : Laws p rounds) : Phase L → Nat
  | .fresh => 5 + rounds * (3 * n + 1)
  | .outside l => 4 + (rounds - r.rank l).toNat * (3 * n + 1)
  | .ready l => 3 + (rounds - r.rank l).toNat * (3 * n + 1)
  | .holding l => 2 + (rounds - r.rank l).toNat * (3 * n + 1)
  | .entered l => 1 + (rounds - r.rank l).toNat * (3 * n + 1)
  | .asleep l => (rounds - r.rank l).toNat * (3 * n + 1)
  | .returned => 0

def total (r : Laws p rounds) (s : State (Fin n) L σ) : Nat := ∑ i, r.weight (s.phase i)

theorem total_move {i : Fin n} {phase : Phase L} {holder : Option (Fin n)}
    (h : r.weight phase < r.weight (s.phase i)) :
    r.total { s.move i phase with holder := holder } < r.total s := by
  apply Finset.sum_lt_sum
  · intro j _
    change r.weight (Function.update s.phase i phase j) ≤ r.weight (s.phase j)
    rcases eq_or_ne j i with rfl | hne
    · rw [Function.update_self]
      exact h.le
    · rw [Function.update_of_ne hne]
  · refine ⟨i, Finset.mem_univ i, ?_⟩
    change r.weight (Function.update s.phase i phase i) < _
    rwa [Function.update_self]

theorem weight_wakeUp (phase : Phase L) : r.weight phase.wakeUp ≤ r.weight phase + 3 := by
  cases phase <;> simp [Phase.wakeUp, weight]
  omega

theorem At.total_act (h : r.At fails s m) {i : Fin n} {e : ε} {l : L}
    (hphase : s.phase i = .entered l) :
    r.total { s.broadcast.move i (.outside (p.next i l)) with
      holder := none, shared := p.act i l e s.shared } < r.total s := by
  obtain ⟨_, hrank, hlt⟩ := h.fits hphase rfl
  let phases := Function.update s.broadcast.phase i (.outside (p.next i l))
  have hleft : (rounds - r.rank l).toNat = (rounds - r.rank (p.next i l)).toNat + 1 := by
    rw [r.next_rank, hrank]
    omega
  -- Every thread gains at most three steps, and the acting one loses 3 n + 1 of them.
  have hsum : ∑ j, (r.weight (phases j) + if j = i then 3 * n + 1 else 0) ≤
      ∑ j, (r.weight (s.phase j) + 3) := by
    apply Finset.sum_le_sum
    intro j _
    rcases eq_or_ne j i with rfl | hne
    · rw [if_pos rfl, show phases j = .outside (p.next j l) from Function.update_self _ _ _, hphase,
        weight, weight, hleft, Nat.add_mul, Nat.one_mul]
      omega
    · rw [if_neg hne, Nat.add_zero,
        show phases j = (s.phase j).wakeUp from Function.update_of_ne hne _ _]
      exact weight_wakeUp _
  rw [Finset.sum_add_distrib, Finset.sum_add_distrib, Finset.sum_ite_eq' Finset.univ i,
    if_pos (Finset.mem_univ i), Finset.sum_const, Finset.card_univ, Fintype.card_fin,
    smul_eq_mul] at hsum
  change ∑ j, r.weight (phases j) < ∑ j, r.weight (s.phase j)
  omega

theorem At.total_lt (h : r.At fails s m) (hmove : Move p s input s')
    (hcaused : input.isSpurious = false) : r.total s' < r.total s := by
  cases hmove with
  | @refused i e hphase hconnect =>
    apply total_move
    rw [hphase, weight, weight]
    omega
  | @connected i e l hphase hconnect =>
    apply total_move
    rw [hphase, weight, weight, r.connect_rank hconnect, sub_zero, Int.toNat_natCast]
    omega
  | @leave i e l hphase hagain =>
    apply total_move
    rw [hphase, weight, weight]
    omega
  | @go i e l l' hphase hagain =>
    apply total_move
    rw [hphase, weight, weight, (r.again_go hagain).1]
    omega
  | @lock i l hphase hfree =>
    apply total_move
    rw [hphase, weight, weight]
    omega
  | @enter i l hphase hturn =>
    apply total_move
    rw [hphase, weight, weight]
    omega
  | @sleep i l hphase hturn =>
    apply total_move
    rw [hphase, weight, weight]
    omega
  | @act i e l hphase => exact h.total_act hphase
  | @wake i l hphase => cases hcaused

theorem at_final {shared : σ} (hstart : r.Shows shared 0) (x : Run p fails shared) :
    ∃ m, r.At fails x.final m :=
  (at_run hstart x).final

theorem total_start (shared : σ) :
    r.total (Monitor.start shared) = n * (5 + rounds * (3 * n + 1)) := by
  simp [total, Monitor.start, weight]

/-- Without spurious wake-ups a run is short. -/
theorem length_le {shared : σ} (hstart : r.Shows shared 0) (x : Run p fails shared)
    (hcaused : ∀ input ∈ x.inputs, input.isSpurious = false) :
    x.inputs.length ≤ n * (5 + rounds * (3 * n + 1)) := by
  have hsteps : ∀ k ≤ x.inputs.length, k + r.total (x.stateAt k) ≤ r.total x.start := by
    intro k
    induction k with
    | zero => intro _; exact Nat.le_of_eq (Nat.zero_add _)
    | succ k ih =>
      intro hk
      obtain ⟨m, h⟩ := at_run hstart x k
      have henabled := (x.eachStep_iff.mp x.permits k hk).1
      have hlt := h.total_lt (move_of_enabled henabled) (hcaused _ (List.getElem_mem hk))
      rw [x.stateAt_succ hk]
      have hle := ih (Nat.le_of_succ_le hk)
      omega
  have hlast := hsteps x.inputs.length le_rfl
  rw [x.begins, total_start] at hlast
  omega

theorem exists_permitted (hconnect : ∀ i, ∃ e, p.connect i e = none ↔ fails i = true)
    (hmoves : ¬Stuck p s) : ∃ input, Permitted p fails s input ∧ input.isSpurious = false := by
  rw [Stuck, not_forall] at hmoves
  obtain ⟨input, hinput⟩ := hmoves
  rw [Classical.not_imp, Bool.not_eq_true] at hinput
  obtain ⟨henabled, hcaused⟩ := hinput
  cases input with
  | connect i e =>
    -- What the environment answers does not decide whether a thread can connect.
    obtain ⟨e', he'⟩ := hconnect i
    refine ⟨.connect i e', ⟨?_, he'⟩, rfl⟩
    rw [Enabled, attempt] at henabled ⊢
    split at henabled
    · split <;> rfl
    · cases henabled
  | again | lock | test | act | wake => exact ⟨_, ⟨henabled, trivial⟩, hcaused⟩

/-- Every run can be carried on until the threads stop. -/
theorem exists_stuck {shared : σ} (hstart : r.Shows shared 0)
    (hconnect : ∀ i, ∃ e, p.connect i e = none ↔ fails i = true) (x : Run p fails shared) :
    ∃ y : Run p fails shared, x.inputs <+: y.inputs ∧ Stuck p y.final := by
  induction hleft : r.total x.final using Nat.strong_induction_on generalizing x with
  | _ left ih =>
    cases Classical.em (Stuck p x.final) with
    | inl hstuck => exact ⟨x, List.prefix_rfl, hstuck⟩
    | inr hmoves =>
      obtain ⟨input, hpermitted, hcaused⟩ := exists_permitted hconnect hmoves
      obtain ⟨m, h⟩ := at_final hstart x
      have hlt := h.total_lt (move_of_enabled hpermitted.1) hcaused
      obtain ⟨y, hprefix, hstuck⟩ := ih _ (by rw [← hleft, x.snoc_final]; exact hlt)
        (x.snoc input hpermitted) rfl
      exact ⟨y, (List.prefix_append _ _).trans hprefix, hstuck⟩

end Laws

/-! ## Threads that fail to connect -/

/-- A thread waits for a turn that belongs to one that is gone. -/
def Blocked (owns : σ → Fin n → Prop) (s : State (Fin n) L σ) : Prop :=
  ∃ i j l, s.phase i = .asleep l ∧ owns s.shared j ∧ s.phase j = .returned

/-- When nothing moves any more, every thread has returned and those that connected
have acted in every round. -/
def Finished (p : Program (Fin n) L ε σ) (fails : Fin n → Bool) (acted : σ → Fin n → Nat)
    (rounds : Nat) (s : State (Fin n) L σ) : Prop :=
  Stuck p s → ∀ i, s.phase i = .returned ∧ (fails i = false → acted s.shared i = rounds)

/-- No thread that connected is kept from its last round by one that comes before it
or, from the second round on, by any that failed. -/
def Harmless (fails : Fin n → Bool) (rounds : Nat) : Prop :=
  ∀ f d, fails f = true → fails d = false → rounds = 0 ∨ (rounds = 1 ∧ d < f)

namespace Laws

variable {p : Program (Fin n) L ε σ} {rounds : Nat} {r : Laws p rounds}
variable {fails : Fin n → Bool} {s : State (Fin n) L σ} {m : Nat}

/-- In front of a thread that failed, a harmless set of failures leaves nothing to do. -/
theorem At.not_asleep (h : r.At fails s m) (hharmless : Harmless fails rounds) {f i : Fin n} {l : L}
    (hf : fails f = true) (hm : m = f) : s.phase i ≠ .asleep l := by
  intro hphase
  obtain ⟨hi, _⟩ := h.fits hphase rfl
  have hlt := (h.not_owner_of_asleep hphase).2
  have hfront := hharmless f i hf hi
  rw [taken_of_lt (hm ▸ f.isLt), hm] at hlt
  rcases hfront with hzero | ⟨hone, hbefore⟩
  · omega
  · rw [if_pos (Fin.lt_def.mp hbefore), hone] at hlt
    exact Nat.lt_irrefl 1 hlt

theorem At.not_blocked (h : r.At fails s m) (hharmless : Harmless fails rounds) :
    ¬Blocked r.owns s := by
  rintro ⟨i, j, l, hasleep, howns, hreturned⟩
  have hj := (r.owns_iff h.shows j).mp howns
  cases hfails : fails j with
  | true =>
    have hle := (h.failed j hfails).2
    have hm : m = j := le_antisymm hle (hj ▸ Nat.mod_le m n)
    exact h.not_asleep hharmless hfails hm hasleep
  | false =>
    have hdone := h.returned_owner hj hfails hreturned
    subst hdone
    have hphase := h.returned_of_done (i := i) (by rw [hasleep]; rfl)
    rw [hasleep] at hphase
    cases hphase

theorem At.finished [Nonempty ε] (h : r.At fails s m) (hharmless : Harmless fails rounds) :
    Finished p fails r.acted rounds s := by
  intro hstuck i
  have hrest := (stuck_iff h.sound).mp hstuck i
  have hreturned : s.phase i = .returned := by
    rcases h.stuck_cases hstuck with rfl | ⟨f, hf, hm⟩
    · exact h.returned_of_done hrest
    · cases hphase : s.phase i with
      | returned => rfl
      | asleep l => exact absurd hphase (h.not_asleep hharmless hf hm)
      | fresh | outside | ready | holding | entered =>
        rw [hphase] at hrest
        cases hrest
  refine ⟨hreturned, fun hi => ?_⟩
  have hfits := h.alive i hi
  rw [hreturned] at hfits
  rw [r.acted_eq h.shows]
  exact hfits

/-- Exactly the harmless failures leave every run without a blocked thread. -/
theorem never_blocks_iff [Nonempty ε] {shared : σ} (hstart : r.Shows shared 0)
    (hconnect : ∀ i, ∃ e, p.connect i e = none ↔ fails i = true) :
    (∀ x : Run p fails shared, x.Always (fun s => ¬Blocked r.owns s) ∧
      x.Always (Finished p fails r.acted rounds)) ↔ Harmless fails rounds := by
  constructor
  · intro hall f d hf hd
    obtain ⟨y, _, hstuck⟩ := exists_stuck hstart hconnect (Execution.empty _ rfl)
    obtain ⟨m, h⟩ := at_final hstart y
    have hle := (h.failed f hf).2
    have hcount := ((hall y).2.final hstuck d).2 hd
    rw [r.acted_eq h.shows, taken_of_lt (lt_of_le_of_lt hle f.isLt)] at hcount
    -- The turn stops in front of f, so thread d has acted once if it comes before f.
    split at hcount
    · rename_i hbefore
      exact .inr ⟨hcount.symm, Fin.lt_def.mpr (lt_of_lt_of_le hbefore hle)⟩
    · exact .inl hcount.symm
  · intro hharmless x
    constructor
    · intro k
      obtain ⟨m, h⟩ := at_run hstart x k
      exact h.not_blocked hharmless
    · intro k
      obtain ⟨m, h⟩ := at_run hstart x k
      exact h.finished hharmless

end Laws

end ConnectionOrder.Rotation
