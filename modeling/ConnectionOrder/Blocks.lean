import Mathlib.Data.Finset.Card
import Mathlib.Data.Finset.Insert
import Mathlib.Data.Set.Pairwise.Basic
import Mathlib.Order.Bounds.Defs
import Mathlib.Order.Interval.Finset.Nat
import Mathlib.Tactic.Common

/-!
# The greedy cut of a list

Elements are collected until the block is full, then a new block begins. When
every block around a full one is full, no family of disjoint blocks of the list
has more members than the cut: each member reaches across the end of a block of
the cut, and these ends are different.
-/

namespace ConnectionOrder.Blocks

universe u

variable {α : Type u} (full : List α → Prop) [DecidablePred full]

/-- `held` is the part of the current block that has been read. -/
def cutFrom (held : List α) : List α → List (List α)
  | [] => []
  | a :: w =>
    if full (held ++ [a]) then (held ++ [a]) :: cutFrom [] w else cutFrom (held ++ [a]) w

def cut (w : List α) : List (List α) := cutFrom full [] w

/-- Where the blocks of the cut begin and end, the current one beginning at `start`. -/
def spansFrom (start : Nat) (held : List α) : List α → List (Nat × Nat)
  | [] => []
  | a :: w =>
    if full (held ++ [a]) then
      (start, start + held.length + 1) :: spansFrom (start + held.length + 1) [] w
    else spansFrom start (held ++ [a]) w

omit [DecidablePred full] in
/-- Disjoint full blocks of w, each given by where it begins and ends. -/
def Packs (w : List α) (family : Finset (Nat × Nat)) : Prop :=
  (∀ span ∈ family, span.2 ≤ w.length ∧ full ((w.take span.2).drop span.1)) ∧
  (family : Set (Nat × Nat)).PairwiseDisjoint fun span => Finset.Ico span.1 span.2

theorem length_spansFrom (start : Nat) (held w : List α) :
    (spansFrom full start held w).length = (cutFrom full held w).length := by
  induction w generalizing start held with
  | nil => rfl
  | cons a w ih =>
    rw [spansFrom, cutFrom]
    split
    · rw [List.length_cons, List.length_cons, ih]
    · exact ih start (held ++ [a])

theorem append_cons_eq (before held w : List α) (a : α) :
    before ++ held ++ a :: w = before ++ (held ++ [a]) ++ w := by
  rw [List.append_assoc, List.append_assoc, List.append_assoc, List.singleton_append]

theorem spansFrom_sound (before held w : List α) :
    (∀ span ∈ spansFrom full before.length held w, before.length ≤ span.1 ∧ span.1 < span.2 ∧
      span.2 ≤ (before ++ held ++ w).length ∧
      full (((before ++ held ++ w).take span.2).drop span.1)) ∧
    (spansFrom full before.length held w).Pairwise fun p q => p.2 ≤ q.1 := by
  induction w generalizing before held with
  | nil => exact ⟨fun span hspan => absurd hspan List.not_mem_nil, List.Pairwise.nil⟩
  | cons a w ih =>
    rw [spansFrom, append_cons_eq]
    split
    · rename_i hfull
      obtain ⟨hrest, hapart⟩ := ih (before ++ (held ++ [a])) []
      have hlength : before.length + held.length + 1 = (before ++ (held ++ [a])).length := by
        simp only [List.length_append, List.length_singleton]
        omega
      rw [List.append_nil] at hrest
      rw [hlength]
      refine ⟨?_, List.pairwise_cons.mpr ⟨fun span hspan => (hrest span hspan).1, hapart⟩⟩
      intro span hspan
      rcases List.mem_cons.mp hspan with rfl | hlater
      · refine ⟨le_rfl, ?_, ?_, ?_⟩
        · omega
        · dsimp only
          simp only [List.length_append]
          omega
        · rw [List.take_left, List.drop_left]
          exact hfull
      · obtain ⟨hlow, hspan⟩ := hrest span hlater
        exact ⟨by omega, hspan⟩
    · exact ih before (held ++ [a])

variable {full}

/-- No full block that begins in or after the current one misses all the ends. -/
theorem spansFrom_complete (hmono : ∀ b c, b <:+: c → full b → full c) (before held w : List α)
    {i j : Nat} (hlow : before.length ≤ i) (hlt : i < j) (hheld : before.length + held.length < j)
    (hhigh : j ≤ (before ++ held ++ w).length)
    (hfull : full (((before ++ held ++ w).take j).drop i)) :
    ∃ span ∈ spansFrom full before.length held w, i < span.2 ∧ span.2 ≤ j := by
  induction w generalizing before held with
  | nil =>
    simp only [List.append_nil, List.length_append] at hhigh
    omega
  | cons a w ih =>
    rw [append_cons_eq] at hhigh hfull
    have hlength : (before ++ (held ++ [a])).length = before.length + held.length + 1 := by
      simp only [List.length_append, List.length_singleton]
      omega
    rw [spansFrom]
    split
    · cases Nat.lt_or_ge i (before.length + held.length + 1) with
      | inl hinside => exact ⟨_, List.mem_cons_self, hinside, hheld⟩
      | inr hafter =>
        rw [← hlength] at hafter ⊢
        obtain ⟨span, hspan, hin⟩ := ih (before ++ (held ++ [a])) [] hafter
          (by simp only [List.length_nil]; omega) (by rwa [List.append_nil])
          (by rwa [List.append_nil])
        exact ⟨span, List.mem_cons_of_mem _ hspan, hin⟩
    · rename_i hopen
      rcases Nat.lt_or_eq_of_le hheld with hlater | hend
      · exact ih before (held ++ [a]) hlow
          (by rw [List.length_append, List.length_singleton]; omega) hhigh hfull
      · -- The block ends in the current one, which would then be full.
        refine absurd (hmono _ _ ?_ hfull) hopen
        have htake : (before ++ (held ++ [a]) ++ w).take j = before ++ (held ++ [a]) := by
          rw [← hend, Nat.succ_eq_add_one, ← hlength, List.take_left]
        rw [htake, List.drop_append, List.drop_of_length_le hlow, List.nil_append]
        exact (List.drop_suffix _ _).isInfix

omit [DecidablePred full] in
theorem nonempty_of_packs (hempty : ¬full []) {w : List α} {family : Finset (Nat × Nat)}
    (h : Packs full w family) {span : Nat × Nat} (hspan : span ∈ family) : span.1 < span.2 := by
  by_contra hnot
  have hfull := (h.1 span hspan).2
  rw [List.drop_of_length_le ((List.length_take_le _ _).trans (by omega))] at hfull
  exact hempty hfull

theorem card_le_length_cut (hmono : ∀ b c, b <:+: c → full b → full c) (hempty : ¬full [])
    {w : List α} {family : Finset (Nat × Nat)} (h : Packs full w family) :
    family.card ≤ (cut full w).length := by
  have hend : ∀ span ∈ family, ∃ e ∈ (spansFrom full 0 [] w).map Prod.snd,
      span.1 < e ∧ e ≤ span.2 := by
    intro span hspan
    obtain ⟨hhigh, hfull⟩ := h.1 span hspan
    have hlt := nonempty_of_packs hempty h hspan
    obtain ⟨block, hblock, hin⟩ := spansFrom_complete hmono [] [] w (Nat.zero_le _) hlt
      (Nat.zero_lt_of_lt hlt) hhigh hfull
    exact ⟨block.2, List.mem_map_of_mem hblock, hin⟩
  choose! e hmem hin using hend
  have hinj : Set.InjOn e family := by
    intro p hp q hq heq
    by_contra hne
    have hpin := hin p hp
    have hqin := hin q hq
    have hdisjoint : Disjoint (Finset.Ico p.1 p.2) (Finset.Ico q.1 q.2) := h.2 hp hq hne
    have hleft : e p - 1 ∈ Finset.Ico p.1 p.2 := Finset.mem_Ico.mpr ⟨by omega, by omega⟩
    have hright : e p - 1 ∈ Finset.Ico q.1 q.2 := Finset.mem_Ico.mpr ⟨by omega, by omega⟩
    exact Finset.disjoint_left.mp hdisjoint hleft hright
  calc
    family.card = (family.image e).card := (Finset.card_image_of_injOn hinj).symm
    _ ≤ ((spansFrom full 0 [] w).map Prod.snd).toFinset.card := by
      apply Finset.card_le_card
      intro n hn
      obtain ⟨span, hspan, rfl⟩ := Finset.mem_image.mp hn
      exact List.mem_toFinset.mpr (hmem span hspan)
    _ ≤ ((spansFrom full 0 [] w).map Prod.snd).length := List.toFinset_card_le _
    _ = (cut full w).length := by rw [List.length_map, length_spansFrom, cut]

theorem packs_spans (w : List α) : Packs full w (spansFrom full 0 [] w).toFinset ∧
    (spansFrom full 0 [] w).toFinset.card = (cut full w).length := by
  obtain ⟨hsound, hapart⟩ := spansFrom_sound full [] [] w
  have hdisjoint : (spansFrom full 0 [] w).Pairwise fun p q =>
      Disjoint (Finset.Ico p.1 p.2) (Finset.Ico q.1 q.2) := by
    refine hapart.imp fun hle => Finset.disjoint_left.mpr fun n hp hq => ?_
    rw [Finset.mem_Ico] at hp hq
    omega
  have hsymm : Std.Symm fun p q : Nat × Nat =>
      Disjoint (Finset.Ico p.1 p.2) (Finset.Ico q.1 q.2) := ⟨fun _ _ h => h.symm⟩
  refine ⟨⟨fun span hspan => ?_, ?_⟩, ?_⟩
  · exact (hsound span (List.mem_toFinset.mp hspan)).2.2
  · intro p hp q hq hpq
    exact hdisjoint.forall (List.mem_toFinset.mp hp) (List.mem_toFinset.mp hq) hpq
  · rw [List.toFinset_card_of_nodup, length_spansFrom, cut]
    refine hapart.imp_of_mem ?_
    rintro p q hp hq hle rfl
    have hlt := (hsound p hp).2.1
    omega

/-- The greedy cut has as many blocks as there can be. -/
theorem isGreatest_cut (hmono : ∀ b c, b <:+: c → full b → full c) (hempty : ¬full [])
    (w : List α) :
    IsGreatest {n | ∃ family, Packs full w family ∧ family.card = n} (cut full w).length := by
  constructor
  · exact ⟨_, packs_spans w⟩
  · rintro n ⟨family, hpacks, rfl⟩
    exact card_le_length_cut hmono hempty hpacks

end ConnectionOrder.Blocks
