import ConnectionOrder.Rotation

/-!
# Two rotations in lockstep

Two programs whose turn goes round, with the same number of threads and of rounds,
allow the same schedules: after the same choices of the scheduler every thread is at
the same point in both, and the same number of actions has been taken.
-/

namespace ConnectionOrder.Rotation

open Machine Monitor

variable {n rounds : Nat} {L M ε σ τ : Type} {p : Program (Fin n) L ε σ} {q : Program (Fin n) M ε τ}

structure Together (r : Laws p rounds) (w : Laws q rounds) (fails : Fin n → Bool)
    (s : State (Fin n) L σ) (t : State (Fin n) M τ) (m : Nat) : Prop where
  left : r.At fails s m
  right : w.At fails t m
  phase : ∀ i, (t.phase i).shape = (s.phase i).shape
  holder : t.holder = s.holder

namespace Together

variable {r : Laws p rounds} {w : Laws q rounds} {fails : Fin n → Bool}
variable {s s' : State (Fin n) L σ} {t t' : State (Fin n) M τ} {input : Input (Fin n) ε} {m : Nat}

/-- Both threads are at the same point after both moved. -/
theorem shape_update {phases : Fin n → Phase L} {phases' : Fin n → Phase M}
    (h : ∀ j, (phases' j).shape = (phases j).shape) {i : Fin n} {a : Phase L} {b : Phase M}
    (hab : b.shape = a.shape) (j : Fin n) :
    (Function.update phases' i b j).shape = (Function.update phases i a j).shape := by
  rcases eq_or_ne j i with rfl | hne
  · rw [Function.update_self, Function.update_self]
    exact hab
  · rw [Function.update_of_ne hne, Function.update_of_ne hne]
    exact h j

theorem shape_of (h : Together r w fails s t m) {i : Fin n} {phase : Phase L}
    (hphase : s.phase i = phase) : (t.phase i).shape = phase.shape := by
  rw [h.phase, hphase]

/-- It is the turn of a thread in both or in none. -/
theorem turn_eq (h : Together r w fails s t m) {i : Fin n} {l : L} {l' : M}
    (hs : s.phase i = .holding l) (ht : t.phase i = .holding l') :
    q.turn i l' t.shared = p.turn i l s.shared := by
  obtain ⟨_, hrank, _⟩ := h.left.fits hs rfl
  obtain ⟨_, hrank', _⟩ := h.right.fits ht rfl
  rw [Bool.eq_iff_iff, w.turn_iff h.right.shows i l' hrank', r.turn_iff h.left.shows i l hrank]

/-- A move of one program is one of the other. -/
theorem move (h : Together r w fails s t m) (hp : Honest p fails input)
    (hq : Honest q fails input) (hmove : Move p s input s') :
    ∃ t', Move q t input t' ∧ (∀ i, (t'.phase i).shape = (s'.phase i).shape) ∧
      t'.holder = s'.holder := by
  cases hmove with
  | @refused i e hphase hconnect =>
    have ht := Phase.shape_eq_fresh.mp (h.shape_of hphase)
    exact ⟨_, .refused ht (hq.mpr (hp.mp hconnect)), shape_update h.phase rfl, h.holder⟩
  | @connected i e l hphase hconnect =>
    have ht := Phase.shape_eq_fresh.mp (h.shape_of hphase)
    have hother : q.connect i e ≠ none := by
      intro hnone
      rw [hp.mpr (hq.mp hnone)] at hconnect
      cases hconnect
    obtain ⟨l', hl'⟩ := Option.ne_none_iff_exists'.mp hother
    exact ⟨_, .connected ht hl', shape_update h.phase rfl, h.holder⟩
  | @leave i e l hphase hagain =>
    obtain ⟨l', ht⟩ := Phase.shape_eq_outside.mp (h.shape_of hphase)
    obtain ⟨_, hrank, _⟩ := h.left.fits hphase rfl
    obtain ⟨_, hrank', _⟩ := h.right.fits ht rfl
    have hdone := r.again_leave hagain (by omega)
    -- Both have the same number of rounds behind them, and that is all of them.
    have hother : q.again i l' e = none := by
      cases hgo : q.again i l' e with
      | none => rfl
      | some l'' =>
        have hlt := (w.again_go hgo).2
        omega
    exact ⟨_, .leave ht hother, shape_update h.phase rfl, h.holder⟩
  | @go i e l l' hphase hagain =>
    obtain ⟨k, ht⟩ := Phase.shape_eq_outside.mp (h.shape_of hphase)
    obtain ⟨_, hrank, _⟩ := h.left.fits hphase rfl
    obtain ⟨_, hrank', _⟩ := h.right.fits ht rfl
    have hmore := (r.again_go hagain).2
    have hother : q.again i k e ≠ none := by
      intro hnone
      have hdone := w.again_leave hnone (by omega)
      omega
    obtain ⟨k', hk'⟩ := Option.ne_none_iff_exists'.mp hother
    exact ⟨_, .go ht hk', shape_update h.phase rfl, h.holder⟩
  | @lock i l hphase hfree =>
    obtain ⟨l', ht⟩ := Phase.shape_eq_ready.mp (h.shape_of hphase)
    exact ⟨_, .lock ht (h.holder.trans hfree), shape_update h.phase rfl, rfl⟩
  | @enter i l hphase hturn =>
    obtain ⟨l', ht⟩ := Phase.shape_eq_holding.mp (h.shape_of hphase)
    have hother := (h.turn_eq hphase ht).trans hturn
    exact ⟨_, .enter ht hother, shape_update h.phase rfl, h.holder⟩
  | @sleep i l hphase hturn =>
    obtain ⟨l', ht⟩ := Phase.shape_eq_holding.mp (h.shape_of hphase)
    have hother := (h.turn_eq hphase ht).trans hturn
    exact ⟨_, .sleep ht hother, shape_update h.phase rfl, rfl⟩
  | @act i e l hphase =>
    obtain ⟨l', ht⟩ := Phase.shape_eq_entered.mp (h.shape_of hphase)
    refine ⟨_, .act ht, shape_update (fun j => ?_) rfl, rfl⟩
    change (t.phase j).wakeUp.shape = (s.phase j).wakeUp.shape
    rw [Phase.shape_wakeUp, Phase.shape_wakeUp, h.phase]
  | @wake i l hphase =>
    obtain ⟨l', ht⟩ := Phase.shape_eq_asleep.mp (h.shape_of hphase)
    exact ⟨_, .wake ht, shape_update h.phase rfl, h.holder⟩

theorem step (h : Together r w fails s t m) (hp : Permitted p fails s input)
    (hq : Honest q fails input) :
    Permitted q fails t input ∧
      Together r w fails (Monitor.step p s input) (Monitor.step q t input) (m + input.acts) := by
  have hmove := move_of_enabled hp.1
  obtain ⟨t', hother, hphase, hholder⟩ := h.move hp.2 hq hmove
  obtain ⟨henabled, rfl⟩ := enabled_of_move hother
  exact ⟨⟨henabled, hq⟩, h.left.step hp.2 hmove, h.right.step hq hother, hphase, hholder⟩

end Together

/-- A run of one program is a run of the other, under the same choices of the scheduler. -/
theorem Laws.exists_lockstep (r : Laws p rounds) (w : Laws q rounds) {fails : Fin n → Bool}
    {shared : σ} {shared' : τ} (hr : r.Shows shared 0) (hw : w.Shows shared' 0)
    (hhonest : ∀ input, Honest p fails input → Honest q fails input) (x : Run p fails shared) :
    ∃ y : Run q fails shared', y.inputs = x.inputs ∧ ∃ m, Together r w fails x.final y.final m := by
  let start' : State (Fin n) M τ := Monitor.start shared'
  have hboth : Along (Monitor.step q) (Permitted q fails) start' x.inputs ∧
      ∃ m, Together r w fails x.final (run (Monitor.step q) start' x.inputs) m := by
    apply x.history_induction (P := fun is => Along (Monitor.step q) (Permitted q fails) start' is ∧
      ∃ m, Together r w fails (run (Monitor.step p) x.start is) (run (Monitor.step q) start' is) m)
    · refine ⟨trivial, 0, ?_⟩
      rw [x.begins]
      exact ⟨r.at_start hr, w.at_start hw, fun _ => rfl, rfl⟩
    · rintro is input _ hp ⟨halong, m, h⟩
      obtain ⟨hpermitted, hnext⟩ := h.step hp (hhonest _ hp.2)
      rw [along_snoc, run_snoc, run_snoc]
      exact ⟨⟨halong, hpermitted⟩, _, hnext⟩
  exact ⟨⟨start', x.inputs, rfl, hboth.1⟩, rfl, hboth.2⟩

end ConnectionOrder.Rotation
