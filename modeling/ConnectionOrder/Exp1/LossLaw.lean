import ConnectionOrder.Exp1.Segmentation
import Mathlib.Data.Int.Range

/-!
# The law of the loss tracker

After any packet numbers the tracker is known in closed form: global_expected_seq
is one above the largest number so far, and out_of_order holds the front of the
increasing list of all smaller positive numbers that were no new maximum.
-/

namespace ConnectionOrder.ServerFinal

open Scan LeftMaxima

/-- The numbers between successive left-to-right maxima, from `bound` on. -/
def skipped (bound : Int) : List Int → List Int
  | [] => []
  | p :: ps => if bound < p then Int.range (bound + 1) p ++ skipped p ps else skipped bound ps

theorem range_succ_left {a b : Int} (h : a < b) : Int.range a b = a :: Int.range (a + 1) b := by
  obtain ⟨n, hn⟩ : ∃ n, (b - a).toNat = n + 1 := ⟨(b - a).toNat - 1, by omega⟩
  have hrest : (b - (a + 1)).toNat = n := by omega
  rw [Int.range, hn, List.range_succ_eq_map, List.map_cons, List.map_map, Int.range, hrest]
  congr 1
  · exact Int.add_zero a
  · apply List.map_congr_left
    intro r _
    change a + ((r + 1 : Nat) : Int) = a + 1 + r
    omega

theorem pairwise_range (a b : Int) : (Int.range a b).Pairwise (· < ·) := by
  rw [Int.range, List.pairwise_map]
  refine List.pairwise_lt_range.imp ?_
  intro i j hlt
  omega

/-- The loop stops writing once out_of_order is full. -/
theorem noteMissing_eq (all : List Int) (i : Int) (n : Nat) :
    noteMissing (all.take maxOutOfOrder) i n =
      (all ++ Int.range i (i + n)).take maxOutOfOrder := by
  induction n generalizing all i with
  | zero =>
    have hnone : Int.range i (i + (0 : Nat)) = [] := by simp [Int.range]
    rw [noteMissing, hnone, List.append_nil]
  | succ n ih =>
    have hgrow : (if (all.take maxOutOfOrder).length < maxOutOfOrder
        then all.take maxOutOfOrder ++ [i] else all.take maxOutOfOrder) =
          (all ++ [i]).take maxOutOfOrder := by
      rw [List.length_take, List.take_append]
      split
      · rename_i hroom
        rw [List.take_of_length_le (l := [i]) (by simp; omega)]
      · rename_i hfull
        rw [Nat.sub_eq_zero_of_le (by omega), List.take_zero, List.append_nil]
    have hend : i + ((n + 1 : Nat) : Int) = i + 1 + (n : Int) := by omega
    rw [noteMissing, hgrow, ih, hend, range_succ_left (a := i) (by omega), List.append_assoc]
    rfl

theorem track_law (t : Tracker) (all ps : List Int) (h : ∀ p ∈ ps, p < intMax)
    (hall : t.outOfOrder = all.take maxOutOfOrder) :
    ∃ t', ps.foldlM track t = some t' ∧ t'.expected = 1 + ps.foldl max (t.expected - 1) ∧
      t'.outOfOrder = (all ++ skipped (t.expected - 1) ps).take maxOutOfOrder := by
  induction ps generalizing t all with
  | nil =>
    refine ⟨t, rfl, ?_, ?_⟩
    · rw [List.foldl_nil]
      omega
    · rw [skipped, List.append_nil]
      exact hall
  | cons p ps ih =>
    have hrest := fun q hq => h q (List.mem_cons_of_mem p hq)
    rw [List.foldlM_cons, List.foldl_cons, skipped]
    cases lt_or_ge p t.expected with
    | inl hold =>
      rw [track_of_lt hold, max_eq_left (by omega), if_neg (by omega)]
      exact ih t all hrest hall
    | inr hnew =>
      obtain ⟨t', htrack, hnext, hout⟩ := track_new hnew (h p List.mem_cons_self)
      have hgap : t'.outOfOrder =
          (all ++ Int.range (t.expected - 1 + 1) p).take maxOutOfOrder := by
        have hend : t.expected + ((p - t.expected).toNat : Int) = p := by omega
        rw [hout, hall, noteMissing_eq, hend, Int.sub_add_cancel]
      have hprev : t'.expected - 1 = p := by omega
      have hlaw := ih t' _ hrest hgap
      rw [hprev] at hlaw
      rw [htrack, max_eq_right (by omega), if_pos (by omega), ← List.append_assoc]
      exact hlaw

/-! ## Which numbers are skipped -/

theorem le_foldl_max (bound : Int) (ps : List Int) : bound ≤ ps.foldl max bound := by
  induction ps generalizing bound with
  | nil => exact le_rfl
  | cons p ps ih => exact (le_max_left bound p).trans (ih (max bound p))

theorem mem_skipped_iff {bound m : Int} {ps : List Int} :
    m ∈ skipped bound ps ↔ bound < m ∧ m ≤ ps.foldl max bound ∧ m ∉ maxima bound ps := by
  induction ps generalizing bound with
  | nil =>
    rw [skipped, List.foldl_nil]
    exact iff_of_false List.not_mem_nil fun h => by omega
  | cons p ps ih =>
    rw [skipped, List.foldl_cons]
    cases lt_or_ge bound p with
    | inl hp =>
      have hhigh := le_foldl_max p ps
      have habove : m ∈ maxima p ps → p < m := bound_lt_of_mem_maxima
      rw [if_pos hp, max_eq_right hp.le, maxima_cons_of_lt hp, List.mem_append, Int.mem_range_iff,
        ih, List.mem_cons, not_or]
      constructor
      · rintro (⟨hlow, hlt⟩ | ⟨hlt, hle, hnot⟩)
        · exact ⟨by omega, by omega, by omega, fun hmem => by have := habove hmem; omega⟩
        · exact ⟨by omega, hle, by omega, hnot⟩
      · rintro ⟨hlow, hle, hne, hnot⟩
        cases lt_or_gt_of_ne hne with
        | inl hlt => exact .inl ⟨by omega, hlt⟩
        | inr hgt => exact .inr ⟨hgt, hle, hnot⟩
    | inr hp =>
      rw [if_neg (by omega), max_eq_left hp, maxima_cons_of_le hp]
      exact ih

theorem pairwise_skipped (bound : Int) (ps : List Int) :
    (skipped bound ps).Pairwise (· < ·) := by
  induction ps generalizing bound with
  | nil => exact List.Pairwise.nil
  | cons p ps ih =>
    rw [skipped]
    split
    · refine List.pairwise_append.mpr ⟨pairwise_range _ _, ih p, fun a ha b hb => ?_⟩
      have hlow := (Int.mem_range_iff.mp ha).2
      have hhigh := (mem_skipped_iff.mp hb).1
      exact hlow.trans hhigh
    · exact ih bound

theorem foldl_max_le_iff {bound c : Int} {ps : List Int} :
    ps.foldl max bound ≤ c ↔ bound ≤ c ∧ ∀ p ∈ ps, p ≤ c := by
  induction ps generalizing bound with
  | nil => simp
  | cons p ps ih => rw [List.foldl_cons, ih, max_le_iff, and_assoc, List.forall_mem_cons]

/-- For a permutation of 1..n nothing is skipped exactly when it is sorted. -/
theorem skipped_eq_nil_iff {ps : List Int} {n : Nat} (h : ps.Perm (Int.range 1 (n + 1))) :
    skipped 0 ps = [] ↔ ps.Pairwise (· < ·) := by
  have hmem : ∀ m, m ∈ ps ↔ 1 ≤ m ∧ m < n + 1 := fun m => h.mem_iff.trans Int.mem_range_iff
  have hnodup : ps.Nodup := h.nodup_iff.mpr ((pairwise_range 1 (n + 1)).imp ne_of_lt)
  have hhigh : ps.foldl max 0 ≤ n := by
    rw [foldl_max_le_iff]
    refine ⟨by omega, fun p hp => ?_⟩
    have hrange := (hmem p).mp hp
    omega
  have hpos : ∀ a ∈ ps, 0 < a := fun a ha => ((hmem a).mp ha).1
  rw [pairwise_iff_subset_maxima hnodup hpos, List.eq_nil_iff_forall_not_mem]
  constructor
  · intro hnone m hm
    have hbelow := foldl_max_le_iff.mp (le_refl (ps.foldl max 0))
    by_contra hnot
    exact hnone m (mem_skipped_iff.mpr ⟨hpos m hm, hbelow.2 m hm, hnot⟩)
  · intro hall m hm
    obtain ⟨hlow, hle, hnot⟩ := mem_skipped_iff.mp hm
    exact hnot (hall ((hmem m).mpr ⟨hlow, by omega⟩))

/-- The state of the tracker after any packet numbers below INT_MAX. -/
theorem loss_law (ps : List Int) (h : ∀ p ∈ ps, p < intMax) :
    ∃ t, ps.foldlM track Tracker.start = some t ∧
      t.expected = 1 + ps.foldl max 0 ∧
      (∃ missing : List Int, missing.Pairwise (· < ·) ∧
        (∀ m, m ∈ missing ↔ 1 ≤ m ∧ m < t.expected ∧ m ∉ maxima 0 ps) ∧
        t.outOfOrder = missing.take maxOutOfOrder) ∧
      ∀ n : Nat, ps.Perm (Int.range 1 (n + 1)) → (t.outOfOrder = [] ↔ ps.Pairwise (· < ·)) := by
  obtain ⟨t, hfold, hexpected, hout⟩ := track_law Tracker.start [] ps h rfl
  have hbound : Tracker.start.expected - 1 = 0 := rfl
  rw [hbound] at hexpected hout
  refine ⟨t, hfold, hexpected, ⟨skipped 0 ps, pairwise_skipped 0 ps, fun m => ?_, hout⟩, ?_⟩
  · rw [mem_skipped_iff, hexpected]
    constructor <;> rintro ⟨hlow, hhigh, hnot⟩ <;> exact ⟨by omega, by omega, hnot⟩
  · intro n hperm
    rw [hout, List.nil_append, ← skipped_eq_nil_iff hperm, List.take_eq_nil_iff]
    exact or_iff_right (by decide)

theorem loss_law_gap :
    ∃ t, [3, 1, 2, 2].foldlM track Tracker.start = some t ∧ t.expected = 4 ∧
      t.outOfOrder = [1, 2] := by
  obtain ⟨t, hfold, hexpected, _⟩ := loss_law [3, 1, 2, 2] (by decide)
  refine ⟨t, hfold, hexpected, ?_⟩
  have hrun : ([3, 1, 2, 2].foldlM track Tracker.start).map Tracker.outOfOrder = some [1, 2] := by
    decide
  rw [hfold] at hrun
  exact Option.some.inj hrun

end ConnectionOrder.ServerFinal
