import ConnectionOrder.Machine
import Mathlib.Logic.Function.Basic

/-!
# A family of machines that is driven by one list of inputs

Each input names the member of the family that it is for. What a member does is its own
run on the inputs for it, wherever the other inputs stand.
-/

namespace ConnectionOrder.Keyed

open Machine

universe u v w

variable {κ : Type u} {σ : Type v} {ι : Type w} {β : Type w} [DecidableEq κ]
variable (step : σ → ι → σ) (out : σ → ι → List β)

def stepAt (family : κ → σ) (p : κ × ι) : κ → σ :=
  Function.update family p.1 (step (family p.1) p.2)

/-- The output of the member that moves, under its name. -/
def outAt (family : κ → σ) (p : κ × ι) : List (κ × β) :=
  (out (family p.1) p.2).map (Prod.mk p.1)

def select {γ : Type w} (k : κ) (l : List (κ × γ)) : List γ :=
  (l.filter fun p => p.1 = k).map Prod.snd

theorem select_append {γ : Type w} (k : κ) (l l' : List (κ × γ)) :
    select k (l ++ l') = select k l ++ select k l' := by
  rw [select, List.filter_append, List.map_append, select, select]

theorem select_cons_self {γ : Type w} (k : κ) (a : γ) (l : List (κ × γ)) :
    select k ((k, a) :: l) = a :: select k l := by
  rw [select, List.filter_cons_of_pos (by simp), List.map_cons, select]

theorem select_cons_of_ne {γ : Type w} {k k' : κ} (h : k' ≠ k) (a : γ) (l : List (κ × γ)) :
    select k ((k', a) :: l) = select k l := by
  rw [select, List.filter_cons_of_neg (by simpa using h), select]

theorem select_tagged_self {γ : Type w} (k : κ) (l : List γ) :
    select k (l.map (Prod.mk k)) = l := by
  induction l with
  | nil => rfl
  | cons a l ih => rw [List.map_cons, select_cons_self, ih]

theorem select_tagged_of_ne {γ : Type w} {k k' : κ} (h : k' ≠ k) (l : List γ) :
    select k (l.map (Prod.mk k')) = [] := by
  induction l with
  | nil => rfl
  | cons a l ih => rw [List.map_cons, select_cons_of_ne h, ih]

theorem mem_select {γ : Type w} {k : κ} {a : γ} {l : List (κ × γ)} :
    a ∈ select k l ↔ (k, a) ∈ l := by
  rw [select, List.mem_map]
  constructor
  · rintro ⟨p, hp, rfl⟩
    obtain ⟨hmem, hkey⟩ := List.mem_filter.mp hp
    rwa [← of_decide_eq_true hkey]
  · intro hmem
    exact ⟨(k, a), List.mem_filter.mpr ⟨hmem, decide_eq_true rfl⟩, rfl⟩

theorem select_map {γ δ : Type w} (f : γ → δ) (k : κ) (l : List (κ × γ)) :
    select k (l.map fun p => (p.1, f p.2)) = (select k l).map f := by
  induction l with
  | nil => rfl
  | cons p l ih =>
    obtain ⟨k', a⟩ := p
    rw [List.map_cons]
    rcases eq_or_ne k' k with rfl | hne
    · rw [select_cons_self, select_cons_self, ih, List.map_cons]
    · rw [select_cons_of_ne hne, select_cons_of_ne hne, ih]

theorem run_stepAt (family : κ → σ) (trace : List (κ × ι)) (k : κ) :
    run (stepAt step) family trace k = run step (family k) (select k trace) := by
  induction trace generalizing family with
  | nil => rfl
  | cons p trace ih =>
    obtain ⟨k', i⟩ := p
    rw [run_cons, ih]
    rcases eq_or_ne k' k with rfl | hne
    · rw [select_cons_self, run_cons, stepAt, Function.update_self]
    · rw [select_cons_of_ne hne, stepAt, Function.update_of_ne hne.symm]

theorem collect_outAt (family : κ → σ) (trace : List (κ × ι)) (k : κ) :
    select k (collect (stepAt step) (outAt out) family trace) =
      collect step out (family k) (select k trace) := by
  induction trace generalizing family with
  | nil => rfl
  | cons p trace ih =>
    obtain ⟨k', i⟩ := p
    rw [collect, select_append, ih, outAt]
    rcases eq_or_ne k' k with rfl | hne
    · rw [select_tagged_self, select_cons_self, collect, stepAt, Function.update_self]
    · rw [select_tagged_of_ne hne, select_cons_of_ne hne, List.nil_append, stepAt,
        Function.update_of_ne hne.symm]

theorem along_stepAt (R : σ → ι → Prop) (family : κ → σ) (trace : List (κ × ι))
    (h : Along (stepAt step) (fun f p => R (f p.1) p.2) family trace) (k : κ) :
    Along step R (family k) (select k trace) := by
  induction trace generalizing family with
  | nil => trivial
  | cons p trace ih =>
    obtain ⟨k', i⟩ := p
    obtain ⟨hfirst, hrest⟩ := h
    have hlater := ih _ hrest
    rcases eq_or_ne k' k with rfl | hne
    · rw [stepAt, Function.update_self] at hlater
      rw [select_cons_self]
      exact ⟨hfirst, hlater⟩
    · rw [stepAt, Function.update_of_ne hne.symm] at hlater
      rwa [select_cons_of_ne hne]

end ConnectionOrder.Keyed
