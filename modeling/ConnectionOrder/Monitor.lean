import ConnectionOrder.Machine
import Mathlib.Logic.Function.Basic

/-!
# Threads under one mutex and one condition variable

Each thread connects and then goes round a loop: it leaves or goes on, takes the
lock, waits until it is its turn, acts, wakes every waiting thread and gives the
lock back. Waiting gives the lock up and falls asleep in one step; acting, waking
the others and unlocking are one step as well. A thread may also wake up for no
reason. The inputs of the machine are the scheduler's choices, with what the
environment answers where a thread asks it something.
-/

namespace ConnectionOrder.Monitor

open Machine

/-- `outside` is in front of the loop test, `ready` wants the lock, `holding` has it
and tests the condition next, `entered` has found that it is its turn. -/
inductive Phase (L : Type) where
  | fresh
  | outside (l : L)
  | ready (l : L)
  | holding (l : L)
  | entered (l : L)
  | asleep (l : L)
  | returned
deriving DecidableEq

namespace Phase

variable {L : Type}

def wakeUp : Phase L → Phase L
  | .asleep l => .ready l
  | phase => phase

def hasLock : Phase L → Bool
  | .holding _ | .entered _ => true
  | .fresh | .outside _ | .ready _ | .asleep _ | .returned => false

/-- Where the thread is, without what it keeps. -/
def shape : Phase L → Phase Unit
  | .fresh => .fresh
  | .outside _ => .outside ()
  | .ready _ => .ready ()
  | .holding _ => .holding ()
  | .entered _ => .entered ()
  | .asleep _ => .asleep ()
  | .returned => .returned

def inLoop : Phase L → Bool
  | .fresh | .returned => false
  | .outside _ | .ready _ | .holding _ | .entered _ | .asleep _ => true

/-- The thread can only be brought on by another one, or is gone. -/
def atRest : Phase L → Bool
  | .asleep _ | .returned => true
  | .fresh | .outside _ | .ready _ | .holding _ | .entered _ => false

@[simp] theorem hasLock_wakeUp (phase : Phase L) : phase.wakeUp.hasLock = phase.hasLock := by
  cases phase <;> rfl

@[simp] theorem shape_wakeUp (phase : Phase L) : phase.wakeUp.shape = phase.shape.wakeUp := by
  cases phase <;> rfl

theorem shape_eq_fresh {phase : Phase L} : phase.shape = .fresh ↔ phase = .fresh := by
  cases phase <;> simp [shape]

theorem shape_eq_outside {phase : Phase L} :
    phase.shape = .outside () ↔ ∃ l, phase = .outside l := by
  cases phase <;> simp [shape]

theorem shape_eq_ready {phase : Phase L} : phase.shape = .ready () ↔ ∃ l, phase = .ready l := by
  cases phase <;> simp [shape]

theorem shape_eq_holding {phase : Phase L} :
    phase.shape = .holding () ↔ ∃ l, phase = .holding l := by
  cases phase <;> simp [shape]

theorem shape_eq_entered {phase : Phase L} :
    phase.shape = .entered () ↔ ∃ l, phase = .entered l := by
  cases phase <;> simp [shape]

theorem shape_eq_asleep {phase : Phase L} : phase.shape = .asleep () ↔ ∃ l, phase = .asleep l := by
  cases phase <;> simp [shape]

theorem wakeUp_ne_asleep (phase : Phase L) (l : L) : phase.wakeUp ≠ .asleep l := by
  cases phase <;> simp [wakeUp]

end Phase

/-- `L` is what a thread keeps for itself, `σ` what the threads share and `ε` what
the environment answers. `connect` and `again` return `none` when the thread ends. -/
structure Program (ι L ε σ : Type) where
  connect : ι → ε → Option L
  again : ι → L → ε → Option L
  turn : ι → L → σ → Bool
  act : ι → L → ε → σ → σ
  next : ι → L → L

structure State (ι L σ : Type) where
  phase : ι → Phase L
  holder : Option ι
  shared : σ

inductive Input (ι ε : Type) where
  | connect (i : ι) (e : ε)
  | again (i : ι) (e : ε)
  | lock (i : ι)
  | test (i : ι)
  | act (i : ι) (e : ε)
  | wake (i : ι)

/-- A wake-up that no other thread caused. -/
def Input.isSpurious {ι ε : Type} : Input ι ε → Bool
  | .wake _ => true
  | .connect .. | .again .. | .lock _ | .test _ | .act .. => false

def Input.acts {ι ε : Type} : Input ι ε → Nat
  | .act .. => 1
  | .connect .. | .again .. | .lock _ | .test _ | .wake _ => 0

variable {ι L ε σ : Type} [DecidableEq ι]

def start (shared : σ) : State ι L σ := ⟨fun _ => .fresh, none, shared⟩

def State.move (s : State ι L σ) (i : ι) (phase : Phase L) : State ι L σ :=
  { s with phase := Function.update s.phase i phase }

def State.broadcast (s : State ι L σ) : State ι L σ :=
  { s with phase := fun j => (s.phase j).wakeUp }

/-- `none` when the thread is not at that point, or another one has the lock. -/
def attempt (p : Program ι L ε σ) (s : State ι L σ) : Input ι ε → Option (State ι L σ)
  | .connect i e =>
    match s.phase i with
    | .fresh =>
      match p.connect i e with
      | none => some (s.move i .returned)
      | some l => some (s.move i (.outside l))
    | _ => none
  | .again i e =>
    match s.phase i with
    | .outside l =>
      match p.again i l e with
      | none => some (s.move i .returned)
      | some l => some (s.move i (.ready l))
    | _ => none
  | .lock i =>
    match s.phase i, s.holder with
    | .ready l, none => some { s.move i (.holding l) with holder := some i }
    | _, _ => none
  | .test i =>
    match s.phase i with
    | .holding l =>
      if p.turn i l s.shared then some (s.move i (.entered l))
      else some { s.move i (.asleep l) with holder := none }
    | _ => none
  | .act i e =>
    match s.phase i with
    | .entered l =>
      some { s.broadcast.move i (.outside (p.next i l)) with
        holder := none, shared := p.act i l e s.shared }
    | _ => none
  | .wake i =>
    match s.phase i with
    | .asleep l => some (s.move i (.ready l))
    | _ => none

def step (p : Program ι L ε σ) (s : State ι L σ) (input : Input ι ε) : State ι L σ :=
  (attempt p s input).getD s

def Enabled (p : Program ι L ε σ) (s : State ι L σ) (input : Input ι ε) : Prop :=
  (attempt p s input).isSome = true

instance (p : Program ι L ε σ) (s : State ι L σ) (input : Input ι ε) :
    Decidable (Enabled p s input) := inferInstanceAs (Decidable (_ = true))

/-- No thread can do anything unless one wakes up for no reason. -/
def Stuck (p : Program ι L ε σ) (s : State ι L σ) : Prop :=
  ∀ input, Enabled p s input → input.isSpurious = true

/-- The steps that the program allows, with what each does. -/
inductive Move (p : Program ι L ε σ) (s : State ι L σ) : Input ι ε → State ι L σ → Prop where
  | refused {i : ι} {e : ε} (h : s.phase i = .fresh) (hconnect : p.connect i e = none) :
      Move p s (.connect i e) (s.move i .returned)
  | connected {i : ι} {e : ε} {l : L} (h : s.phase i = .fresh)
      (hconnect : p.connect i e = some l) : Move p s (.connect i e) (s.move i (.outside l))
  | leave {i : ι} {e : ε} {l : L} (h : s.phase i = .outside l) (hagain : p.again i l e = none) :
      Move p s (.again i e) (s.move i .returned)
  | go {i : ι} {e : ε} {l l' : L} (h : s.phase i = .outside l)
      (hagain : p.again i l e = some l') : Move p s (.again i e) (s.move i (.ready l'))
  | lock {i : ι} {l : L} (h : s.phase i = .ready l) (hfree : s.holder = none) :
      Move p s (.lock i) { s.move i (.holding l) with holder := some i }
  | enter {i : ι} {l : L} (h : s.phase i = .holding l) (hturn : p.turn i l s.shared = true) :
      Move p s (.test i) (s.move i (.entered l))
  | sleep {i : ι} {l : L} (h : s.phase i = .holding l) (hturn : p.turn i l s.shared = false) :
      Move p s (.test i) { s.move i (.asleep l) with holder := none }
  | act {i : ι} {e : ε} {l : L} (h : s.phase i = .entered l) :
      Move p s (.act i e) { s.broadcast.move i (.outside (p.next i l)) with
        holder := none, shared := p.act i l e s.shared }
  | wake {i : ι} {l : L} (h : s.phase i = .asleep l) : Move p s (.wake i) (s.move i (.ready l))

variable {p : Program ι L ε σ} {s s' : State ι L σ} {input : Input ι ε}

theorem move_of_attempt (h : attempt p s input = some s') : Move p s input s' := by
  cases input with
  | connect i e =>
    rw [attempt] at h
    split at h
    · rename_i hphase
      split at h
      · cases h
        exact .refused hphase ‹_›
      · cases h
        exact .connected hphase ‹_›
    · cases h
  | again i e =>
    rw [attempt] at h
    split at h
    · rename_i hphase
      split at h
      · cases h
        exact .leave hphase ‹_›
      · cases h
        exact .go hphase ‹_›
    · cases h
  | lock i =>
    rw [attempt] at h
    split at h
    · cases h
      exact .lock ‹_› ‹_›
    · cases h
  | test i =>
    rw [attempt] at h
    split at h
    · rename_i hphase
      split at h
      · cases h
        exact .enter hphase ‹_›
      · rename_i hturn
        cases h
        exact .sleep hphase (Bool.not_eq_true _ ▸ hturn)
    · cases h
  | act i e =>
    rw [attempt] at h
    split at h
    · cases h
      exact .act ‹_›
    · cases h
  | wake i =>
    rw [attempt] at h
    split at h
    · cases h
      exact .wake ‹_›
    · cases h

theorem attempt_of_move (h : Move p s input s') : attempt p s input = some s' := by
  cases h with
  | refused hphase hconnect | connected hphase hconnect => simp [attempt, hphase, hconnect]
  | leave hphase hagain | go hphase hagain => simp [attempt, hphase, hagain]
  | lock hphase hfree => simp [attempt, hphase, hfree]
  | enter hphase hturn | sleep hphase hturn => simp [attempt, hphase, hturn]
  | act hphase | wake hphase => simp [attempt, hphase]

theorem enabled_of_move (h : Move p s input s') : Enabled p s input ∧ step p s input = s' := by
  rw [Enabled, step, attempt_of_move h]
  exact ⟨rfl, rfl⟩

theorem move_of_enabled (h : Enabled p s input) : Move p s input (step p s input) := by
  obtain ⟨s', hattempt⟩ := Option.isSome_iff_exists.mp h
  rw [step, hattempt]
  exact move_of_attempt hattempt

/-! ## No wake-up is lost -/

/-- One thread has the lock, and a thread sleeps only while it is not its turn. -/
structure Sound (p : Program ι L ε σ) (s : State ι L σ) : Prop where
  lock : ∀ i, (s.phase i).hasLock = true ↔ s.holder = some i
  entered : ∀ i l, s.phase i = .entered l → p.turn i l s.shared = true
  asleep : ∀ i l, s.phase i = .asleep l → p.turn i l s.shared = false

omit [DecidableEq ι] in
theorem sound_start (shared : σ) : Sound p (start shared : State ι L σ) := by
  constructor
  · exact fun i => iff_of_false Bool.false_ne_true (Option.some_ne_none i).symm
  · intro i l h
    cases h
  · intro i l h
    cases h

/-- One thread changes its phase and nothing that the turn depends on. -/
theorem Sound.move (h : Sound p s) {i : ι} {phase : Phase L} {holder : Option ι}
    (hlock : ∀ j, (Function.update s.phase i phase j).hasLock = true ↔ holder = some j)
    (hentered : ∀ l, phase = .entered l → p.turn i l s.shared = true)
    (hasleep : ∀ l, phase = .asleep l → p.turn i l s.shared = false) :
    Sound p { s.move i phase with holder := holder } := by
  constructor
  · exact hlock
  · intro j l hj
    change Function.update s.phase i phase j = _ at hj
    rcases eq_or_ne j i with rfl | hne
    · rw [Function.update_self] at hj
      exact hentered l hj
    · rw [Function.update_of_ne hne] at hj
      exact h.entered j l hj
  · intro j l hj
    change Function.update s.phase i phase j = _ at hj
    rcases eq_or_ne j i with rfl | hne
    · rw [Function.update_self] at hj
      exact hasleep l hj
    · rw [Function.update_of_ne hne] at hj
      exact h.asleep j l hj

theorem Sound.lock_update (h : Sound p s) {i : ι} {phase : Phase L}
    (hsame : phase.hasLock = (s.phase i).hasLock) (j : ι) :
    (Function.update s.phase i phase j).hasLock = true ↔ s.holder = some j := by
  rcases eq_or_ne j i with rfl | hne
  · rw [Function.update_self, hsame]
    exact h.lock j
  · rw [Function.update_of_ne hne]
    exact h.lock j

omit [DecidableEq ι] in
/-- One thread at a time has the lock. -/
theorem Sound.alone (h : Sound p s) {i j : ι} (hheld : (s.phase i).hasLock = true)
    (hne : j ≠ i) : (s.phase j).hasLock = false := by
  rw [← Bool.not_eq_true]
  intro hlock
  have hi := (h.lock i).mp hheld
  rw [(h.lock j).mp hlock] at hi
  exact hne (Option.some.inj hi)

theorem Sound.lock_release (h : Sound p s) {i : ι} (hheld : (s.phase i).hasLock = true)
    {phase : Phase L} (hfree : phase.hasLock = false) (j : ι) :
    (Function.update s.phase i phase j).hasLock = true ↔ (none : Option ι) = some j := by
  refine iff_of_false (fun hlock => ?_) (Option.some_ne_none j).symm
  rcases eq_or_ne j i with rfl | hne
  · rw [Function.update_self, hfree] at hlock
    exact Bool.false_ne_true hlock
  · rw [Function.update_of_ne hne, h.alone hheld hne] at hlock
    exact Bool.false_ne_true hlock

theorem Sound.act (h : Sound p s) {i : ι} {e : ε} {l : L} (hphase : s.phase i = .entered l) :
    Sound p { s.broadcast.move i (.outside (p.next i l)) with
      holder := none, shared := p.act i l e s.shared } := by
  -- Only the acting thread had the lock, and nobody sleeps through the broadcast.
  have hheld : (s.phase i).hasLock = true := by
    rw [hphase]
    rfl
  have hphases : ∀ j, (Function.update s.broadcast.phase i (.outside (p.next i l)) j).hasLock =
      false := by
    intro j
    rcases eq_or_ne j i with rfl | hne
    · rw [Function.update_self]
      rfl
    · rw [Function.update_of_ne hne]
      exact (Phase.hasLock_wakeUp _).trans (h.alone hheld hne)
  constructor
  · intro j
    refine iff_of_false ?_ (Option.some_ne_none j).symm
    rw [Bool.not_eq_true]
    exact hphases j
  · intro j l' hj
    have hlock := hphases j
    change Function.update s.broadcast.phase i (.outside (p.next i l)) j = _ at hj
    rw [hj] at hlock
    cases hlock
  · intro j l' hj
    change Function.update s.broadcast.phase i (.outside (p.next i l)) j = _ at hj
    rcases eq_or_ne j i with rfl | hne
    · rw [Function.update_self] at hj
      cases hj
    · rw [Function.update_of_ne hne] at hj
      exact absurd hj (Phase.wakeUp_ne_asleep _ l')

theorem Sound.step (h : Sound p s) (hmove : Move p s input s') : Sound p s' := by
  cases hmove with
  | refused hphase | connected hphase | leave hphase | go hphase | wake hphase =>
    refine h.move (h.lock_update ?_) ?_ ?_
    · rw [hphase]
      rfl
    · intro _ habsurd
      cases habsurd
    · intro _ habsurd
      cases habsurd
  | @lock i l hphase hfree =>
    refine h.move (fun j => ?_) ?_ ?_
    · rcases eq_or_ne j i with rfl | hne
      · rw [Function.update_self]
        exact iff_of_true rfl rfl
      · rw [Function.update_of_ne hne, h.lock j, hfree]
        exact iff_of_false (Option.some_ne_none j).symm fun hi => hne (Option.some.inj hi).symm
    · intro _ habsurd
      cases habsurd
    · intro _ habsurd
      cases habsurd
  | @enter i l hphase hturn =>
    refine h.move (h.lock_update ?_) ?_ ?_
    · rw [hphase]
      rfl
    · intro _ hentered
      cases hentered
      exact hturn
    · intro _ habsurd
      cases habsurd
  | @sleep i l hphase hturn =>
    refine h.move (h.lock_release ?_ rfl) ?_ ?_
    · rw [hphase]
      rfl
    · intro _ habsurd
      cases habsurd
    · intro _ hasleep
      cases hasleep
      exact hturn
  | act hphase => exact h.act hphase

theorem enabled_of_not_atRest [Nonempty ε] (h : Sound p s) {i : ι}
    (hi : (s.phase i).atRest = false) :
    ∃ input, Enabled p s input ∧ input.isSpurious = false := by
  have hholder : ∀ j, s.holder = some j →
      ∃ input, Enabled p s input ∧ input.isSpurious = false := by
    intro j hj
    have hlock := (h.lock j).mpr hj
    cases hphase : s.phase j with
    | holding l =>
      refine ⟨.test j, ?_, rfl⟩
      rw [Enabled, attempt, hphase]
      dsimp only
      split <;> rfl
    | entered l =>
      refine ⟨.act j (Classical.arbitrary ε), ?_, rfl⟩
      rw [Enabled, attempt, hphase]
      rfl
    | fresh | outside | ready | asleep | returned =>
      rw [hphase] at hlock
      cases hlock
  cases hphase : s.phase i with
  | fresh =>
    refine ⟨.connect i (Classical.arbitrary ε), ?_, rfl⟩
    rw [Enabled, attempt, hphase]
    dsimp only
    split <;> rfl
  | outside l =>
    refine ⟨.again i (Classical.arbitrary ε), ?_, rfl⟩
    rw [Enabled, attempt, hphase]
    dsimp only
    split <;> rfl
  | ready l =>
    cases hfree : s.holder with
    | none =>
      refine ⟨.lock i, ?_, rfl⟩
      rw [Enabled, attempt, hphase, hfree]
      rfl
    | some j => exact hholder j hfree
  | holding l | entered l =>
    apply hholder i
    rw [← h.lock, hphase]
    rfl
  | asleep l | returned =>
    rw [hphase] at hi
    cases hi

theorem stuck_iff [Nonempty ε] (h : Sound p s) : Stuck p s ↔ ∀ i, (s.phase i).atRest = true := by
  constructor
  · intro hstuck i
    by_contra hi
    obtain ⟨input, henabled, hcaused⟩ := enabled_of_not_atRest h (Bool.not_eq_true _ ▸ hi)
    rw [hstuck input henabled] at hcaused
    cases hcaused
  · intro hrest input henabled
    have hmove := move_of_enabled henabled
    generalize step p s input = s' at hmove
    cases hmove with
    | wake => rfl
    | @refused i e h | @connected i e l h | @leave i e l h | @go i e l l' h | @lock i l h
    | @enter i l h | @sleep i l h | @act i e l h =>
      have hi := hrest i
      rw [h] at hi
      cases hi

end ConnectionOrder.Monitor
