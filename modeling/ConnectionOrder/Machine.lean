import Mathlib.Data.List.Induction

/-!
# Deterministic machines driven by a list of inputs

A program that reacts to an environment is a step function on its states; the
environment's answers are the inputs. The rules below carry a property of one
step to every state reached by every run. Conditions on a step are relations
between the state before it and the input it is given.
-/

namespace ConnectionOrder.Machine

universe u v w

variable {σ : Type u} {ι : Type v} {β : Type w} {step : σ → ι → σ}

def run (step : σ → ι → σ) (s : σ) (inputs : List ι) : σ := inputs.foldl step s

@[simp] theorem run_nil (s : σ) : run step s [] = s := rfl

@[simp] theorem run_cons (s : σ) (i : ι) (is : List ι) :
    run step s (i :: is) = run step (step s i) is := rfl

theorem run_append (s : σ) (is js : List ι) :
    run step s (is ++ js) = run step (run step s is) js := List.foldl_append

theorem run_snoc (s : σ) (is : List ι) (i : ι) :
    run step s (is ++ [i]) = step (run step s is) i := run_append s is [i]

/-- Every step of the run satisfies `R`. -/
def Along (step : σ → ι → σ) (R : σ → ι → Prop) : σ → List ι → Prop
  | _, [] => True
  | s, i :: is => R s i ∧ Along step R (step s i) is

instance decidableAlong (R : σ → ι → Prop) [∀ s i, Decidable (R s i)] :
    (s : σ) → (is : List ι) → Decidable (Along step R s is)
  | _, [] => .isTrue trivial
  | s, i :: is =>
    have := decidableAlong R (step s i) is
    inferInstanceAs (Decidable (R s i ∧ Along step R (step s i) is))

theorem along_append {R : σ → ι → Prop} (s : σ) (is js : List ι) :
    Along step R s (is ++ js) ↔ Along step R s is ∧ Along step R (run step s is) js := by
  induction is generalizing s with
  | nil => simp [Along]
  | cons i is ih =>
    rw [List.cons_append, Along, Along, ih, run_cons, and_assoc]

theorem along_snoc {R : σ → ι → Prop} (s : σ) (is : List ι) (i : ι) :
    Along step R s (is ++ [i]) ↔ Along step R s is ∧ R (run step s is) i := by
  rw [along_append]
  simp [Along]

theorem along_and {R Q : σ → ι → Prop} (s : σ) (is : List ι) :
    Along step (fun s i => R s i ∧ Q s i) s is ↔ Along step R s is ∧ Along step Q s is := by
  induction is generalizing s with
  | nil => simp [Along]
  | cons i is ih =>
    simp only [Along, ih]
    exact and_and_and_comm

theorem along_map {κ : Type w} (f : κ → ι) {R : σ → ι → Prop} (s : σ) (ks : List κ) :
    Along step R s (ks.map f) ↔ Along (fun s k => step s (f k)) (fun s k => R s (f k)) s ks := by
  induction ks generalizing s with
  | nil => exact Iff.rfl
  | cons k ks ih => exact and_congr_right fun _ => ih _

def collect (step : σ → ι → σ) (f : σ → ι → List β) : σ → List ι → List β
  | _, [] => []
  | s, i :: is => f s i ++ collect step f (step s i) is

theorem collect_append (f : σ → ι → List β) (s : σ) (is js : List ι) :
    collect step f s (is ++ js) = collect step f s is ++ collect step f (run step s is) js := by
  induction is generalizing s with
  | nil => rfl
  | cons i is ih =>
    rw [List.cons_append, collect, collect, ih, run_cons, List.append_assoc]

theorem collect_snoc (f : σ → ι → List β) (s : σ) (is : List ι) (i : ι) :
    collect step f s (is ++ [i]) = collect step f s is ++ f (run step s is) i := by
  rw [collect_append]
  simp [collect]

theorem collect_map {κ : Type w} (f : κ → ι) (g : σ → ι → List β) (s : σ) (ks : List κ) :
    collect step g s (ks.map f) =
      collect (fun s k => step s (f k)) (fun s k => g s (f k)) s ks := by
  induction ks generalizing s with
  | nil => rfl
  | cons k ks ih => rw [List.map_cons, collect, collect, ih]

def track (step : σ → ι → σ) (f : β → σ → ι → β) : β → σ → List ι → β
  | b, _, [] => b
  | b, s, i :: is => track step f (f b s i) (step s i) is

theorem track_snoc (f : β → σ → ι → β) (b : β) (s : σ) (is : List ι) (i : ι) :
    track step f b s (is ++ [i]) = f (track step f b s is) (run step s is) i := by
  induction is generalizing b s with
  | nil => rfl
  | cons j is ih =>
    rw [List.cons_append, track, ih, track, run_cons]

/-- The machine with a history variable beside its state. -/
def withHistory (step : σ → ι → σ) (f : β → σ → ι → β) (p : β × σ) (i : ι) : β × σ :=
  (f p.1 p.2 i, step p.2 i)

theorem run_withHistory (f : β → σ → ι → β) (b : β) (s : σ) (is : List ι) :
    run (withHistory step f) (b, s) is = (track step f b s is, run step s is) := by
  induction is generalizing b s with
  | nil => rfl
  | cons i is ih => exact ih (f b s i) (step s i)

theorem along_withHistory {R : σ → ι → Prop} (f : β → σ → ι → β) (b : β) (s : σ) (is : List ι) :
    Along (withHistory step f) (fun p i => R p.2 i) (b, s) is ↔ Along step R s is := by
  induction is generalizing b s with
  | nil => exact Iff.rfl
  | cons i is ih => exact and_congr_right fun _ => ih (f b s i) (step s i)

/-- A finite run from an initial state in which every input was permitted. Each
of its states is the final state of the run cut there. -/
structure Execution (step : σ → ι → σ) (initial : σ → Prop) (permitted : σ → ι → Prop) where
  start : σ
  inputs : List ι
  begins : initial start
  permits : Along step permitted start inputs

namespace Execution

variable {initial : σ → Prop} {permitted : σ → ι → Prop}
variable (x : Execution step initial permitted)

def final : σ := run step x.start x.inputs

def stateAt (n : Nat) : σ := run step x.start (x.inputs.take n)

/-- `P` holds in every state reached, the initial one included. -/
def Always (P : σ → Prop) : Prop := ∀ n, P (x.stateAt n)

def EachStep (R : σ → ι → Prop) : Prop := Along step R x.start x.inputs

def observed (f : σ → ι → List β) : List β := collect step f x.start x.inputs

def tracked (f : β → σ → ι → β) (b : β) : β := track step f b x.start x.inputs

def upTo (n : Nat) : Execution step initial permitted where
  start := x.start
  inputs := x.inputs.take n
  begins := x.begins
  permits := by
    have h := x.permits
    rw [← List.take_append_drop n x.inputs, along_append] at h
    exact h.1

theorem upTo_length : x.upTo x.inputs.length = x := by
  obtain ⟨start, inputs, begins, permits⟩ := x
  simp only [upTo, List.take_length]

def empty (s : σ) (h : initial s) : Execution step initial permitted := ⟨s, [], h, trivial⟩

def snoc (i : ι) (h : permitted x.final i) : Execution step initial permitted where
  start := x.start
  inputs := x.inputs ++ [i]
  begins := x.begins
  permits := (along_snoc x.start x.inputs i).mpr ⟨x.permits, h⟩

@[simp] theorem snoc_final (i : ι) (h : permitted x.final i) :
    (x.snoc i h).final = step x.final i := run_snoc x.start x.inputs i

theorem stateAt_of_length_le {n : Nat} (h : x.inputs.length ≤ n) : x.stateAt n = x.final := by
  rw [stateAt, List.take_of_length_le h, final]

theorem stateAt_length : x.stateAt x.inputs.length = x.final :=
  x.stateAt_of_length_le (Nat.le_refl _)

theorem Always.final {x : Execution step initial permitted} {P : σ → Prop} (h : x.Always P) :
    P x.final := by
  rw [← stateAt_length]
  exact h x.inputs.length

theorem EachStep.upTo {x : Execution step initial permitted} {R : σ → ι → Prop}
    (h : x.EachStep R) (n : Nat) : (x.upTo n).EachStep R := by
  rw [EachStep] at h
  rw [← List.take_append_drop n x.inputs, along_append] at h
  exact h.1

theorem stateAt_succ {n : Nat} (h : n < x.inputs.length) :
    x.stateAt (n + 1) = step (x.stateAt n) x.inputs[n] := by
  rw [stateAt, List.take_succ_eq_append_getElem h, run_snoc, stateAt]

theorem eachStep_iff {R : σ → ι → Prop} :
    x.EachStep R ↔ ∀ n (h : n < x.inputs.length), R (x.stateAt n) x.inputs[n] := by
  constructor
  · intro hR n h
    have hcut : Along step R x.start (x.inputs.take (n + 1)) := hR.upTo (n + 1)
    rw [List.take_succ_eq_append_getElem h, along_snoc] at hcut
    exact hcut.2
  · intro hR
    have hlen : ∀ n, n ≤ x.inputs.length → Along step R x.start (x.inputs.take n) := by
      intro n
      induction n with
      | zero => intro _; trivial
      | succ n ih =>
        intro h
        rw [List.take_succ_eq_append_getElem h, along_snoc]
        exact ⟨ih (Nat.le_of_succ_le h), hR n h⟩
    have hall := hlen x.inputs.length (Nat.le_refl _)
    rwa [List.take_length] at hall

/-- The induction behind every statement about the history of a run: it holds of
the empty history and each permitted step extends it. -/
theorem history_induction {P : List ι → Prop} (nil : P [])
    (snoc : ∀ is i, Along step permitted x.start is → permitted (run step x.start is) i →
      P is → P (is ++ [i])) : P x.inputs := by
  have hall : ∀ is, Along step permitted x.start is → P is := by
    intro is
    induction is using List.reverseRecOn with
    | nil => intro _; exact nil
    | append_singleton is i ih =>
      intro h
      rw [along_snoc] at h
      exact snoc is i h.1 h.2 (ih h.1)
  exact hall x.inputs x.permits

theorem invariant {P : σ → Prop} (hinit : ∀ s, initial s → P s)
    (hstep : ∀ s i, permitted s i → P s → P (step s i)) : x.Always P := by
  have hrun : ∀ (y : Execution step initial permitted), P y.final := by
    intro y
    apply y.history_induction (P := fun is => P (run step y.start is))
    · exact hinit y.start y.begins
    · intro is i _ hp ih
      rw [run_snoc]
      exact hstep _ i hp ih
  intro n
  exact hrun (x.upTo n)

/-- What no step undoes holds at the end once it has held. -/
theorem persists {P : σ → Prop} (hstep : ∀ s i, permitted s i → P s → P (step s i)) {n : Nat}
    (h : P (x.stateAt n)) : P x.final := by
  have hlater : ∀ k, P (x.stateAt (n + k)) := by
    intro k
    induction k with
    | zero => exact h
    | succ k ih =>
      cases Nat.lt_or_ge (n + k) x.inputs.length with
      | inl hlt =>
        rw [← Nat.add_assoc, x.stateAt_succ hlt]
        exact hstep _ _ (x.eachStep_iff.mp x.permits _ hlt) ih
      | inr hge =>
        rw [← Nat.add_assoc, x.stateAt_of_length_le (Nat.le_succ_of_le hge)]
        rwa [x.stateAt_of_length_le hge] at ih
  rw [← x.stateAt_of_length_le (Nat.le_add_left x.inputs.length n)]
  exact hlater x.inputs.length

/-- A run whose steps satisfy `R` is a run of the machine that permits no others. -/
def restrict {R : σ → ι → Prop} (hR : x.EachStep R) :
    Execution step initial (fun s i => permitted s i ∧ R s i) where
  start := x.start
  inputs := x.inputs
  begins := x.begins
  permits := (along_and x.start x.inputs).mpr ⟨x.permits, hR⟩

/-- The same run with a history variable that starts as `b`. -/
def withHistory (f : β → σ → ι → β) (b : β) : Execution (Machine.withHistory step f)
    (fun p => p.1 = b ∧ initial p.2) (fun p i => permitted p.2 i) where
  start := (b, x.start)
  inputs := x.inputs
  begins := ⟨rfl, x.begins⟩
  permits := (along_withHistory f b x.start x.inputs).mpr x.permits

@[simp] theorem withHistory_stateAt (f : β → σ → ι → β) (b : β) (n : Nat) :
    (x.withHistory f b).stateAt n = ((x.upTo n).tracked f b, x.stateAt n) :=
  run_withHistory f b x.start (x.inputs.take n)

/-- A condition on steps that reads the history keeps `Q` of history and state. -/
theorem history_invariant {f : β → σ → ι → β} {b : β} {Q : β → σ → Prop} {R : β → σ → ι → Prop}
    (hinit : ∀ s, initial s → Q b s)
    (hstep : ∀ c s i, permitted s i → R c s i → Q c s → Q (f c s i) (step s i))
    (hR : (x.withHistory f b).EachStep fun p i => R p.1 p.2 i) (n : Nat) :
    Q ((x.upTo n).tracked f b) (x.stateAt n) := by
  have hall := ((x.withHistory f b).restrict hR).invariant (P := fun p => Q p.1 p.2)
    (fun p hp => hp.1 ▸ hinit p.2 hp.2) (fun p i hp h => hstep p.1 p.2 i hp.1 hp.2 h) n
  have hstate : ((x.withHistory f b).restrict hR).stateAt n = (x.withHistory f b).stateAt n := rfl
  rwa [hstate, withHistory_stateAt] at hall

theorem track_invariant {f : β → σ → ι → β} {b : β} {Q : β → σ → Prop} {R : σ → ι → Prop}
    (hinit : Q b x.start)
    (hstep : ∀ c s i, permitted s i → R s i → Q c s → Q (f c s i) (step s i))
    (hR : x.EachStep R) (n : Nat) : Q ((x.upTo n).tracked f b) (x.stateAt n) := by
  apply ((x.restrict hR).upTo n).history_induction
    (P := fun is => Q (track step f b x.start is) (run step x.start is)) hinit
  intro is i _ hp ih
  rw [track_snoc, run_snoc]
  exact hstep _ _ i hp.1 hp.2 ih

/-- A property of histories whose survival of one step is decided by `R` holds of
every prefix of a run exactly when every step satisfies `R`. The side invariant
`J` may use the property itself, before and after the step. -/
theorem forall_take_iff_eachStep {J P : List ι → Prop} {R : σ → ι → Prop}
    (nil : J [] ∧ P [])
    (hside : ∀ is i, permitted (run step x.start is) i → J is → P is →
      P (is ++ [i]) → J (is ++ [i]))
    (hstep : ∀ is i, permitted (run step x.start is) i → J is → P is →
      (P (is ++ [i]) ↔ R (run step x.start is) i)) :
    (∀ n, P (x.inputs.take n)) ↔ x.EachStep R := by
  have hpermits := x.eachStep_iff.mp x.permits
  constructor
  · intro hP
    -- P is known on both sides of every step here, so J follows it.
    have hJ : ∀ n, n ≤ x.inputs.length → J (x.inputs.take n) := by
      intro n
      induction n with
      | zero => intro _; exact nil.1
      | succ n ih =>
        intro h
        rw [List.take_succ_eq_append_getElem h]
        exact hside _ _ (hpermits n h) (ih (Nat.le_of_succ_le h)) (hP n)
          (List.take_succ_eq_append_getElem h ▸ hP (n + 1))
    rw [eachStep_iff]
    intro n h
    have hnext := hP (n + 1)
    rw [List.take_succ_eq_append_getElem h] at hnext
    exact (hstep _ _ (hpermits n h) (hJ n (Nat.le_of_lt h)) (hP n)).mp hnext
  · intro hR n
    -- Here R gives the next P first, and J follows from the two.
    have hboth : ∀ n, n ≤ x.inputs.length → J (x.inputs.take n) ∧ P (x.inputs.take n) := by
      intro n
      induction n with
      | zero => intro _; exact nil
      | succ n ih =>
        intro h
        obtain ⟨hj, hp⟩ := ih (Nat.le_of_succ_le h)
        rw [List.take_succ_eq_append_getElem h]
        have hnext := (hstep _ _ (hpermits n h) hj hp).mpr (x.eachStep_iff.mp hR n h)
        exact ⟨hside _ _ (hpermits n h) hj hp hnext, hnext⟩
    cases Nat.le_total n x.inputs.length with
    | inl h => exact (hboth n h).2
    | inr h =>
      have hall := (hboth x.inputs.length (Nat.le_refl _)).2
      rw [List.take_length] at hall
      rwa [List.take_of_length_le h]

theorem always_iff_eachStep {J P : σ → Prop} {R : σ → ι → Prop}
    (hinit : ∀ s, initial s → J s ∧ P s)
    (hside : ∀ s i, permitted s i → J s → P s → P (step s i) → J (step s i))
    (hstep : ∀ s i, permitted s i → J s → P s → (P (step s i) ↔ R s i)) :
    x.Always P ↔ x.EachStep R := by
  apply x.forall_take_iff_eachStep (J := fun is => J (run step x.start is))
    (P := fun is => P (run step x.start is)) (hinit x.start x.begins)
  · intro is i hp hj h hnext
    rw [run_snoc] at hnext ⊢
    exact hside _ i hp hj h hnext
  · intro is i hp hj h
    rw [run_snoc]
    exact hstep _ i hp hj h

/-- Two conditions on steps that agree wherever `J` holds, in a machine whose steps
under one of them keep `J`. -/
theorem eachStep_congr {J : σ → Prop} {D R : σ → ι → Prop} (hinit : ∀ s, initial s → J s)
    (hside : ∀ s i, permitted s i → R s i → J s → J (step s i))
    (hagree : ∀ s i, permitted s i → J s → (D s i ↔ R s i)) : x.EachStep D ↔ x.EachStep R := by
  have hboth : (x.EachStep D ↔ x.EachStep R) ∧ (x.EachStep R → J x.final) := by
    apply x.history_induction (P := fun is =>
      (Along step D x.start is ↔ Along step R x.start is) ∧
        (Along step R x.start is → J (run step x.start is)))
    · exact ⟨Iff.rfl, fun _ => hinit x.start x.begins⟩
    · rintro is i _ hp ⟨hiff, hj⟩
      rw [along_snoc, along_snoc, run_snoc, hiff]
      refine ⟨and_congr_right fun hR => hagree _ i hp (hj hR), ?_⟩
      rintro ⟨hR, hlast⟩
      exact hside _ i hp hlast (hj hR)
  exact hboth.1

end Execution

end ConnectionOrder.Machine
