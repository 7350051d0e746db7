import Mathlib.Data.List.Basic
import Mathlib.Data.List.Count
import Mathlib.Data.List.Perm.Subperm

/-!
# Lanes that are taken from independently

Elements with a key, such that those of one key keep their order and nothing is known
across keys. What has been taken is then, for each key, the front of what was put in.
-/

namespace ConnectionOrder.Interleaving

universe u v

variable {α : Type u} {κ : Type v} [DecidableEq κ] {key : α → κ}

/-- The elements with this key. -/
def lane (key : α → κ) (k : κ) (l : List α) : List α := l.filter fun a => key a = k

/-- What is still to be taken from this lane. -/
def unread (key : α → κ) (taken given : List α) (k : κ) : List α :=
  (lane key k given).drop (lane key k taken).length

def Merges (key : α → κ) (taken given : List α) : Prop :=
  ∀ k, lane key k taken <+: lane key k given

theorem lane_append (k : κ) (l l' : List α) :
    lane key k (l ++ l') = lane key k l ++ lane key k l' := List.filter_append _ _

theorem lane_self {k : κ} {l : List α} (h : ∀ a ∈ l, key a = k) : lane key k l = l :=
  List.filter_eq_self.mpr fun a ha => decide_eq_true (h a ha)

theorem lane_other {k k' : κ} {l : List α} (h : ∀ a ∈ l, key a = k) (hne : k' ≠ k) :
    lane key k' l = [] :=
  List.filter_eq_nil_iff.mpr fun a ha hk => hne ((of_decide_eq_true hk).symm.trans (h a ha))

theorem mem_lane {k : κ} {l : List α} {a : α} : a ∈ lane key k l ↔ a ∈ l ∧ key a = k := by
  rw [lane, List.mem_filter, decide_eq_true_eq]

theorem key_of_mem_unread {taken given : List α} {k : κ} {a : α}
    (h : a ∈ unread key taken given k) : key a = k := (mem_lane.mp (List.mem_of_mem_drop h)).2

theorem merges_nil (given : List α) : Merges key [] given := fun _ => List.nil_prefix

theorem Merges.give {taken given : List α} (h : Merges key taken given) (more : List α) :
    Merges key taken (given ++ more) := by
  intro k
  rw [lane_append]
  exact (h k).trans (List.prefix_append _ _)

theorem Merges.lane_eq {taken given : List α} (h : Merges key taken given) (k : κ) :
    lane key k taken ++ unread key taken given k = lane key k given := by
  obtain ⟨rest, hrest⟩ := h k
  rw [unread, ← hrest, List.drop_left]

theorem Merges.take {taken given : List α} (h : Merges key taken given) (k : κ) (n : Nat) :
    Merges key (taken ++ (unread key taken given k).take n) given := by
  have hkey : ∀ a ∈ (unread key taken given k).take n, key a = k :=
    fun a ha => key_of_mem_unread (List.mem_of_mem_take ha)
  intro k'
  rw [lane_append]
  rcases eq_or_ne k' k with rfl | hne
  · rw [lane_self hkey]
    conv_rhs => rw [← h.lane_eq k']
    exact (List.prefix_append_right_inj _).mpr (List.take_prefix _ _)
  · rw [lane_other hkey hne, List.append_nil]
    exact h k'

section Count

variable [DecidableEq α]

theorem count_lane (l : List α) (a : α) : (lane key (key a) l).count a = l.count a :=
  List.count_filter (decide_eq_true rfl)

theorem Merges.count_le {taken given : List α} (h : Merges key taken given) (a : α) :
    taken.count a ≤ given.count a := by
  have htaken : (lane key (key a) taken).count a = taken.count a := count_lane taken a
  have hgiven : (lane key (key a) given).count a = given.count a := count_lane given a
  rw [← htaken, ← hgiven]
  exact (h (key a)).sublist.count_le a

theorem Merges.length_le {taken given : List α} (h : Merges key taken given) :
    taken.length ≤ given.length :=
  (List.subperm_ext_iff.mpr fun a _ => h.count_le a).length_le

theorem Merges.mem {taken given : List α} (h : Merges key taken given) {a : α} (ha : a ∈ taken) :
    a ∈ given := by
  rw [← List.count_pos_iff] at ha ⊢
  exact Nat.lt_of_lt_of_le ha (h.count_le a)

theorem Merges.nodup {taken given : List α} (h : Merges key taken given) (hnodup : given.Nodup) :
    taken.Nodup := by
  rw [List.nodup_iff_count] at hnodup ⊢
  exact fun a => Nat.le_trans (h.count_le a) (hnodup a)

/-- Nothing is left in any lane. -/
theorem Merges.perm {taken given : List α} (h : Merges key taken given)
    (hall : ∀ k, unread key taken given k = []) : taken.Perm given := by
  rw [List.perm_iff_count]
  intro a
  have hlane := h.lane_eq (key a)
  rw [hall, List.append_nil] at hlane
  have htaken : (lane key (key a) taken).count a = taken.count a := count_lane taken a
  have hgiven : (lane key (key a) given).count a = given.count a := count_lane given a
  rw [← htaken, ← hgiven, hlane]

end Count

end ConnectionOrder.Interleaving
