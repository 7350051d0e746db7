import Mathlib.Data.List.Nodup

/-!
# Dictionaries that remember the order of their keys

dict of Python: a key keeps its place when its value is replaced.
-/

namespace ConnectionOrder.PyDict

universe u v

variable {κ : Type u} {α : Type v}

abbrev Dict (κ : Type u) (α : Type v) := List (κ × α)

def keys (d : Dict κ α) : List κ := d.map Prod.fst

theorem keys_map (xs : List κ) (value : κ → α) : keys (xs.map fun x => (x, value x)) = xs := by
  rw [keys, List.map_map]
  exact List.map_id xs

variable [DecidableEq κ]

def set (d : Dict κ α) (key : κ) (value : α) : Dict κ α :=
  if key ∈ keys d then d.map fun entry => if entry.1 = key then (key, value) else entry
  else d ++ [(key, value)]

def get? (d : Dict κ α) (key : κ) : Option α :=
  (d.find? fun entry => entry.1 = key).map Prod.snd

theorem set_new {d : Dict κ α} {key : κ} (h : key ∉ keys d) (value : α) :
    set d key value = d ++ [(key, value)] := if_neg h

/-- Keys that are new and distinct are appended one after the other. -/
theorem foldl_set {entries : Dict κ α} {d : Dict κ α} (h : (keys (d ++ entries)).Nodup) :
    entries.foldl (fun d entry => set d entry.1 entry.2) d = d ++ entries := by
  induction entries generalizing d with
  | nil => exact (List.append_nil d).symm
  | cons entry entries ih =>
    have hnew : entry.1 ∉ keys d := by
      intro hmem
      rw [keys, List.map_append, List.map_cons] at h
      exact (List.nodup_append.mp h).2.2 _ hmem _ List.mem_cons_self rfl
    rw [List.foldl_cons, set_new hnew, ih (by rwa [← List.append_cons]), ← List.append_cons]

theorem get?_map {β : Type*} {key : β → κ} {value : β → α} {xs : List β} {x : β} (hx : x ∈ xs)
    (h : (xs.map key).Nodup) :
    get? (xs.map fun x => (key x, value x)) (key x) = some (value x) := by
  induction xs with
  | nil => cases hx
  | cons y ys ih =>
    rw [List.map_cons, List.nodup_cons] at h
    rw [get?, List.map_cons, List.find?_cons]
    dsimp only
    cases List.mem_cons.mp hx with
    | inl heq => simp [heq]
    | inr hlater =>
      have hne : key y ≠ key x := fun heq => h.1 (heq ▸ List.mem_map_of_mem hlater)
      rw [decide_eq_false hne]
      exact ih hlater h.2

theorem get?_eq_none {d : Dict κ α} {key : κ} (h : key ∉ keys d) : get? d key = none := by
  rw [get?, Option.map_eq_none_iff, List.find?_eq_none]
  intro entry hentry
  rw [decide_eq_true_eq]
  rintro rfl
  exact h (List.mem_map_of_mem hentry)

theorem get?_of_mem {d : Dict κ α} {key : κ} (h : key ∈ keys d) :
    ∃ value, get? d key = some value := by
  obtain ⟨entry, hentry, rfl⟩ := List.mem_map.mp h
  have hfound : (d.find? fun other => other.1 = entry.1).isSome = true :=
    List.find?_isSome.mpr ⟨entry, hentry, decide_eq_true rfl⟩
  obtain ⟨found, hfound⟩ := Option.isSome_iff_exists.mp hfound
  exact ⟨found.2, by rw [get?, hfound, Option.map_some]⟩

/-! ## Values that are replaced all at once -/

def mapValues {β : Type*} (f : α → β) (d : Dict κ α) : Dict κ β :=
  d.map fun entry => (entry.1, f entry.2)

section MapValues

variable {β : Type*} (f : α → β) (d : Dict κ α)

omit [DecidableEq κ] in
theorem keys_mapValues : keys (mapValues f d) = keys d := by
  rw [keys, mapValues, List.map_map]
  rfl

theorem get?_mapValues (key : κ) : get? (mapValues f d) key = (get? d key).map f := by
  rw [get?, mapValues, List.find?_map, get?, Option.map_map, Option.map_map]
  rfl

end MapValues

/-! ## Comprehensions -/

omit [DecidableEq κ] in
/-- No item raises an exception. -/
theorem mapM_eq_map {β : Type*} {f : β → Option α} {g : β → α} {xs : List β}
    (h : ∀ x ∈ xs, f x = some (g x)) : xs.mapM f = some (xs.map g) := by
  induction xs with
  | nil => rfl
  | cons x xs ih =>
    rw [List.mapM_cons, h x List.mem_cons_self, ih fun y hy => h y (List.mem_cons_of_mem x hy)]
    rfl

end ConnectionOrder.PyDict
