import ConnectionOrder.Interleaving
import Mathlib.Algebra.Order.BigOperators.Group.List
import Mathlib.Algebra.Order.Ring.Nat
import Mathlib.Algebra.BigOperators.Group.Finset.Piecewise
import Mathlib.Data.Fintype.Basic

/-!
# Connections between several clients and one server

A client writes to the last connection that it has made, the server reads from the one with
a given number, and the numbers are in the order of the connects. What is measured of the
bytes of a connection may lose where they are cut, but gain nothing.
-/

namespace ConnectionOrder.Links

open Interleaving

universe u

variable {κ : Type u}

/-- `sent` bytes have been taken from the client, `read` of them handed to the server. -/
structure Link (κ : Type u) where
  client : κ
  sent : Nat
  read : Nat

def connect (c : κ) (links : List (Link κ)) : List (Link κ) := ⟨c, 0, 0⟩ :: links

/-- The newest connection stands first, so that its number is the number of all. -/
def numbered (number : Nat) : List (Link κ) → Option (Link κ)
  | [] => none
  | l :: links => if number = links.length + 1 then some l else numbered number links

def take (number n : Nat) : List (Link κ) → List (Link κ)
  | [] => []
  | l :: links =>
    if number = links.length + 1 then { l with read := l.read + n } :: links
    else l :: take number n links

/-- No more is read than was sent. -/
def Sound (links : List (Link κ)) : Prop := ∀ l ∈ links, l.read ≤ l.sent

section Give

variable [DecidableEq κ]

def give (c : κ) (n : Nat) : List (Link κ) → List (Link κ)
  | [] => []
  | l :: links =>
    if l.client = c then { l with sent := l.sent + n } :: links else l :: give c n links

/-- What the client has sent on each of its connections, the last one first. -/
def sends (c : κ) (links : List (Link κ)) : List Nat := (lane Link.client c links).map Link.sent

theorem sends_cons (c : κ) (l : Link κ) (links : List (Link κ)) :
    sends c (l :: links) = if l.client = c then l.sent :: sends c links else sends c links := by
  rw [sends, lane, List.filter_cons]
  simp only [decide_eq_true_eq]
  split <;> rfl

@[simp] theorem sends_connect_self (c : κ) (links : List (Link κ)) :
    sends c (connect c links) = 0 :: sends c links := by
  rw [connect, sends_cons, if_pos rfl]

theorem sends_connect_of_ne {c c' : κ} (h : c ≠ c') (links : List (Link κ)) :
    sends c' (connect c links) = sends c' links := by
  rw [connect, sends_cons, if_neg h]

theorem sends_give_self {c : κ} {links : List (Link κ)} {x : Nat} {xs : List Nat}
    (h : sends c links = x :: xs) (n : Nat) : sends c (give c n links) = (x + n) :: xs := by
  induction links with
  | nil => cases h
  | cons l links ih =>
    rw [sends_cons] at h
    rw [give]
    split
    · rename_i hclient
      rw [if_pos hclient] at h
      obtain ⟨rfl, rfl⟩ := List.cons.inj h
      rw [sends_cons, if_pos hclient]
    · rename_i hclient
      rw [if_neg hclient] at h
      rw [sends_cons, if_neg hclient]
      exact ih h

theorem sends_give_of_ne {c c' : κ} (h : c ≠ c') (n : Nat) (links : List (Link κ)) :
    sends c' (give c n links) = sends c' links := by
  induction links with
  | nil => rfl
  | cons l links ih =>
    rw [give]
    split
    · rename_i hclient
      rw [sends_cons, sends_cons, if_neg (hclient ▸ h), if_neg (hclient ▸ h)]
    · rw [sends_cons, sends_cons, ih]

theorem sends_take (c : κ) (number n : Nat) (links : List (Link κ)) :
    sends c (take number n links) = sends c links := by
  induction links with
  | nil => rfl
  | cons l links ih =>
    rw [take]
    split
    · rw [sends_cons, sends_cons]
    · rw [sends_cons, sends_cons, ih]

@[simp] theorem length_give (c : κ) (n : Nat) (links : List (Link κ)) :
    (give c n links).length = links.length := by
  induction links with
  | nil => rfl
  | cons l links ih =>
    rw [give]
    split
    · rfl
    · rw [List.length_cons, ih, List.length_cons]

theorem Sound.give {links : List (Link κ)} (h : Sound links) (c : κ) (n : Nat) :
    Sound (give c n links) := by
  induction links with
  | nil => exact h
  | cons l links ih =>
    obtain ⟨hl, hlinks⟩ := List.forall_mem_cons.mp h
    rw [Links.give]
    split
    · exact List.forall_mem_cons.mpr ⟨Nat.le_add_right_of_le hl, hlinks⟩
    · exact List.forall_mem_cons.mpr ⟨hl, ih hlinks⟩

/-- To the server a connection is the same, but for what is left to read. -/
theorem numbered_give {c : κ} {n number : Nat} {links : List (Link κ)} {l : Link κ}
    (h : numbered number (give c n links) = some l) :
    ∃ l', numbered number links = some l' ∧ l'.client = l.client ∧ l'.read = l.read := by
  induction links with
  | nil => cases h
  | cons newest links ih =>
    rw [give] at h
    rw [numbered]
    split at h
    · rw [numbered] at h
      split at h
      · rename_i hnumber
        cases h
        exact ⟨newest, if_pos hnumber, rfl, rfl⟩
      · rename_i hnumber
        exact ⟨l, (if_neg hnumber).trans h, rfl, rfl⟩
    · rw [numbered, length_give] at h
      split at h
      · rename_i hnumber
        cases h
        exact ⟨_, if_pos hnumber, rfl, rfl⟩
      · rename_i hnumber
        rw [if_neg hnumber]
        exact ih h

end Give

/-! ## The numbers -/

@[simp] theorem length_take (number n : Nat) (links : List (Link κ)) :
    (take number n links).length = links.length := by
  induction links with
  | nil => rfl
  | cons l links ih =>
    rw [take]
    split
    · rfl
    · rw [List.length_cons, ih, List.length_cons]

theorem numbered_zero (links : List (Link κ)) : numbered 0 links = none := by
  induction links with
  | nil => rfl
  | cons l links ih =>
    rw [numbered, if_neg (Nat.succ_ne_zero _).symm]
    exact ih

theorem numbered_take_of_ne {number number' : Nat} (h : number ≠ number') (n : Nat)
    (links : List (Link κ)) : numbered number' (take number n links) = numbered number' links := by
  induction links with
  | nil => rfl
  | cons l links ih =>
    rw [take]
    split
    · rename_i hnumber
      rw [numbered, numbered, if_neg (hnumber ▸ h.symm), if_neg (hnumber ▸ h.symm)]
    · rw [numbered, numbered, length_take, ih]

theorem numbered_take_self {number : Nat} {links : List (Link κ)} {l : Link κ}
    (h : numbered number links = some l) (n : Nat) :
    numbered number (take number n links) = some { l with read := l.read + n } := by
  induction links with
  | nil => cases h
  | cons newest links ih =>
    rw [numbered] at h
    rw [take]
    split
    · rename_i hnumber
      rw [if_pos hnumber] at h
      cases h
      rw [numbered, if_pos hnumber]
    · rename_i hnumber
      rw [if_neg hnumber] at h
      rw [numbered, length_take, if_neg hnumber]
      exact ih h

theorem Sound.take {links : List (Link κ)} (h : Sound links) {number n : Nat} {l : Link κ}
    (hl : numbered number links = some l) (hn : l.read + n ≤ l.sent) :
    Sound (take number n links) := by
  induction links with
  | nil => cases hl
  | cons newest links ih =>
    obtain ⟨hfirst, hlinks⟩ := List.forall_mem_cons.mp h
    rw [numbered] at hl
    rw [Links.take]
    split
    · rename_i hnumber
      rw [if_pos hnumber] at hl
      cases hl
      exact List.forall_mem_cons.mpr ⟨hn, hlinks⟩
    · rename_i hnumber
      rw [if_neg hnumber] at hl
      exact List.forall_mem_cons.mpr ⟨hfirst, ih hlinks hl⟩

/-! ## Sums over connections -/

theorem sum_take (f : Link κ → Nat) {links : List (Link κ)} {number n : Nat} {l : Link κ}
    (h : numbered number links = some l) :
    ((take number n links).map f).sum + f l =
      (links.map f).sum + f { l with read := l.read + n } := by
  induction links with
  | nil => cases h
  | cons newest links ih =>
    rw [numbered] at h
    rw [take]
    split
    · rename_i hnumber
      rw [if_pos hnumber] at h
      cases h
      rw [List.map_cons, List.sum_cons, List.map_cons, List.sum_cons]
      omega
    · rename_i hnumber
      rw [if_neg hnumber] at h
      have hrest := ih h
      rw [List.map_cons, List.sum_cons, List.map_cons, List.sum_cons]
      omega

/-- Each client's own sum, over all clients of a kind. -/
theorem sum_sends [Fintype κ] [DecidableEq κ] (weight : Nat → Nat) (among : κ → Bool)
    (links : List (Link κ)) :
    ∑ c, (if among c then ((sends c links).map weight).sum else 0) =
      (links.map fun l => if among l.client then weight l.sent else 0).sum := by
  induction links with
  | nil => exact Finset.sum_eq_zero fun c _ => ite_self 0
  | cons l links ih =>
    have hcons : ∀ c, (if among c then ((sends c (l :: links)).map weight).sum else 0) =
        (if l.client = c then if among c then weight l.sent else 0 else 0) +
          if among c then ((sends c links).map weight).sum else 0 := by
      intro c
      rw [sends_cons]
      split_ifs <;> simp
    rw [Finset.sum_congr rfl fun c _ => hcons c, Finset.sum_add_distrib, ih, Finset.sum_ite_eq,
      if_pos (Finset.mem_univ _), List.map_cons, List.sum_cons]

theorem sum_length_sends [Fintype κ] [DecidableEq κ] (links : List (Link κ)) :
    ∑ c, (sends c links).length = links.length := by
  have hsum := sum_sends (fun _ => 1) (fun _ => true) links
  simpa only [if_true, List.map_const', List.sum_replicate_nat, Nat.mul_one]
    using hsum

/-- Bytes, or whole packets among bytes: a cut loses something or nothing. -/
def Superadditive (weight : Nat → Nat) : Prop := ∀ m n, weight m + weight n ≤ weight (m + n)

/-- What has been read of the connections of some clients. -/
def reads (weight : Nat → Nat) (among : κ → Bool) (links : List (Link κ)) : Nat :=
  (links.map fun l => if among l.client then weight l.read else 0).sum

section Weight

variable {weight : Nat → Nat} (hweight : Superadditive weight)
include hweight

theorem Superadditive.mono {m n : Nat} (h : m ≤ n) : weight m ≤ weight n := by
  have hsum := hweight m (n - m)
  rw [Nat.add_sub_cancel' h] at hsum
  omega

theorem Superadditive.zero : weight 0 = 0 := by
  have hsum := hweight 0 0
  rw [Nat.add_zero] at hsum
  omega

theorem Sound.reads_le [Fintype κ] [DecidableEq κ] {links : List (Link κ)} (h : Sound links)
    (among : κ → Bool) : reads weight among links ≤
      ∑ c, if among c then ((sends c links).map weight).sum else 0 := by
  rw [sum_sends]
  refine List.sum_le_sum fun l hl => ?_
  split
  · exact hweight.mono (h l hl)
  · exact Nat.le_refl 0

theorem reads_take {links : List (Link κ)} {number : Nat} {l : Link κ}
    (h : numbered number links = some l) (n : Nat) (among : κ → Bool) :
    reads weight among links + (if among l.client then weight n else 0) ≤
      reads weight among (take number n links) := by
  have hsum := sum_take (fun l => if among l.client then weight l.read else 0) (n := n) h
  have hcut := hweight l.read n
  rw [reads, reads]
  dsimp only at hsum
  split_ifs at hsum ⊢ <;> omega

end Weight

/-! ## What the clients do -/

/-- The clients make connections and write to them; nothing is read. -/
structure Grows (links links' : List (Link κ)) : Prop where
  sound : Sound links → Sound links'
  length : links.length ≤ links'.length
  reads : ∀ weight, Superadditive weight → ∀ among,
    reads weight among links' = reads weight among links
  numbered : ∀ number l, numbered number links' = some l →
    (∃ l', numbered number links = some l' ∧ l'.client = l.client ∧ l'.read = l.read) ∨
    (links.length < number ∧ l.read = 0)

theorem Grows.refl (links : List (Link κ)) : Grows links links :=
  ⟨id, Nat.le_refl _, fun _ _ _ => rfl, fun _ l h => .inl ⟨l, h, rfl, rfl⟩⟩

theorem grows_connect (c : κ) (links : List (Link κ)) : Grows links (connect c links) where
  sound h := List.forall_mem_cons.mpr ⟨Nat.le_refl 0, h⟩
  length := Nat.le_succ _
  reads weight hweight among := by
    rw [connect, reads, List.map_cons, List.sum_cons, hweight.zero, ite_self, Nat.zero_add]
    rfl
  numbered number l h := by
    rw [connect, numbered] at h
    split at h
    · cases h
      exact .inr ⟨by omega, rfl⟩
    · exact .inl ⟨l, h, rfl, rfl⟩

theorem grows_give [DecidableEq κ] (c : κ) (n : Nat) (links : List (Link κ)) :
    Grows links (give c n links) where
  sound h := h.give c n
  length := Nat.le_of_eq (length_give c n links).symm
  reads weight _ among := by
    rw [reads, reads]
    induction links with
    | nil => rfl
    | cons l links ih =>
      rw [give]
      split
      · rfl
      · rw [List.map_cons, List.sum_cons, ih, List.map_cons, List.sum_cons]
  numbered _ _ h := .inl (numbered_give h)

end ConnectionOrder.Links
