import ConnectionOrder.Blocks
import Mathlib.Tactic.Common

/-!
# Who came first

Events of two sides arrive in some order. An event opens a pair when nothing is
pending and closes it when the pending event is of the other side; the side that
opened the pair came first. Further events of the pending side are passed over.
-/

namespace ConnectionOrder

inductive Side where
  | one
  | two
deriving DecidableEq

structure Pairing where
  pending : Option Side
  oneBeforeTwo : Nat
  twoBeforeOne : Nat
  both : Nat
deriving DecidableEq

namespace Pairing

def fresh : Pairing := ⟨none, 0, 0, 0⟩

def restart (p : Pairing) : Pairing := { p with pending := none }

def observe (p : Pairing) (side : Side) : Pairing :=
  match p.pending, side with
  | none, _ => { p with pending := some side }
  | some .one, .two => ⟨none, p.oneBeforeTwo + 1, p.twoBeforeOne, p.both + 1⟩
  | some .two, .one => ⟨none, p.oneBeforeTwo, p.twoBeforeOne + 1, p.both + 1⟩
  | some .one, .one => p
  | some .two, .two => p

/-- How the servers store what is pending: -1, or what stands for the side. -/
def pickOf (one two : Int) : Option Side → Int
  | none => -1
  | some .one => one
  | some .two => two

/-- Only the side of the last event can be pending. -/
theorem pending_observe {p : Pairing} {side other : Side}
    (h : (p.observe side).pending = some other) : other = side := by
  obtain ⟨pending, one, two, both⟩ := p
  cases pending with
  | none => exact (Option.some.inj h).symm
  | some held => cases held <;> cases side <;> simp_all [observe]

theorem observe_other {side other : Side} (h : side ≠ other) (one two both : Nat) :
    observe ⟨some other, one, two, both⟩ side =
      ⟨none, one + if other = .one then 1 else 0, two + if other = .two then 1 else 0,
        both + 1⟩ := by
  cases side <;> cases other <;> first | rfl | exact absurd rfl h

/-! ## Pairs and blocks -/

/-- Events of both sides. -/
def Full (block : List Side) : Prop := .one ∈ block ∧ .two ∈ block

instance : DecidablePred Full := fun _ => inferInstanceAs (Decidable (_ ∧ _))

/-- The number of blocks whose first event is of this side. -/
def beginning (side : Side) (blocks : List (List Side)) : Nat :=
  blocks.countP fun block => block.head? = some side

theorem beginning_cons (side first : Side) (rest : List Side) (blocks : List (List Side)) :
    beginning side ((first :: rest) :: blocks) =
      beginning side blocks + if first = side then 1 else 0 := by
  rw [beginning, beginning, List.countP_cons, List.head?_cons]
  simp only [Option.some.injEq, decide_eq_true_eq]

theorem full_of_infix {b c : List Side} (h : b <:+: c) (hfull : Full b) : Full c :=
  ⟨h.subset hfull.1, h.subset hfull.2⟩

theorem not_full_nil : ¬Full [] := by decide

theorem not_full_singleton (side : Side) : ¬Full [side] := by cases side <;> decide

/-- An incomplete block is completed by the other side only. -/
theorem full_append_iff {first a : Side} {rest : List Side} (h : ¬Full (first :: rest)) :
    Full (first :: rest ++ [a]) ↔ a ≠ first := by
  rw [Full, not_and_or] at h
  rw [Full]
  simp only [List.mem_append, List.mem_singleton]
  cases first <;> cases a <;> simp_all

/-- A pair is counted at the end of each block of the greedy cut, for the side that
the block begins with. -/
theorem foldl_observe (p : Pairing) (held : List Side) (hpending : p.pending = held.head?)
    (hheld : ¬Full held) (w : List Side) :
    (w.foldl observe p).oneBeforeTwo =
      p.oneBeforeTwo + beginning .one (Blocks.cutFrom Full held w) ∧
    (w.foldl observe p).twoBeforeOne =
      p.twoBeforeOne + beginning .two (Blocks.cutFrom Full held w) ∧
    (w.foldl observe p).both = p.both + (Blocks.cutFrom Full held w).length := by
  induction w generalizing p held with
  | nil => exact ⟨rfl, rfl, rfl⟩
  | cons a w ih =>
    rw [List.foldl_cons, Blocks.cutFrom]
    obtain ⟨pending, one, two, both⟩ := p
    cases held with
    | nil =>
      subst hpending
      rw [List.nil_append, if_neg (not_full_singleton a)]
      exact ih _ [a] rfl (not_full_singleton a)
    | cons first rest =>
      subst hpending
      cases Decidable.em (a = first) with
      | inl hsame =>
        have hopen : ¬Full (first :: rest ++ [a]) := fun h => (full_append_iff hheld).mp h hsame
        subst hsame
        rw [if_neg hopen]
        have hpassed : observe ⟨some a, one, two, both⟩ a = ⟨some a, one, two, both⟩ := by
          cases a <;> rfl
        rw [List.head?_cons, hpassed]
        exact ih _ (a :: rest ++ [a]) rfl hopen
      | inr hother =>
        rw [if_pos ((full_append_iff hheld).mpr hother)]
        obtain ⟨hone, htwo, hboth⟩ := ih ⟨none, one + if first = .one then 1 else 0,
          two + if first = .two then 1 else 0, both + 1⟩ [] rfl not_full_nil
        rw [List.head?_cons, observe_other hother, hone, htwo, hboth, List.cons_append,
          beginning_cons, beginning_cons, List.length_cons]
        dsimp only
        exact ⟨by rw [Nat.add_right_comm, Nat.add_assoc], by rw [Nat.add_right_comm, Nat.add_assoc],
          by rw [Nat.add_right_comm, Nat.add_assoc]⟩

/-! ## Pairs against events -/

/-- The events since the last pair are not used up by the pairs counted so far. -/
def Covered (window : List Side) (events : Side → Nat) (pairs : Int) : Prop :=
  ∀ side, pairs + window.count side ≤ events side

variable {window : List Side} {events : Side → Nat} {pairs : Int}

theorem Covered.le (h : Covered window events pairs) (side : Side) : pairs ≤ events side :=
  (Int.le_add_of_nonneg_right (Int.natCast_nonneg _)).trans (h side)

theorem Covered.event (h : Covered window events pairs) (side : Side) :
    Covered (window ++ [side]) (Function.update events side (events side + 1)) pairs := by
  intro other
  have hold := h other
  rw [List.count_append]
  rcases eq_or_ne other side with rfl | hne
  · rw [Function.update_self, List.count_singleton_self]
    push_cast
    omega
  · have habsent : other ∉ [side] := fun hmem => hne (List.mem_singleton.mp hmem)
    rw [Function.update_of_ne hne, List.count_eq_zero_of_not_mem habsent]
    exact hold

theorem Covered.pair (h : Covered window events pairs) (hfull : Full window) :
    Covered [] events (pairs + 1) := by
  intro side
  have hmem : side ∈ window := by
    cases side with
    | one => exact hfull.1
    | two => exact hfull.2
  have hold := h side
  have hpos := List.count_pos_iff.mpr hmem
  rw [List.count_nil]
  omega

end Pairing

end ConnectionOrder
