/-!
# Values under keys

A key has at most one value. What was put last comes first.
-/

set_option autoImplicit false

namespace TypedTable

structure Keyed (κ : Type) (α : Type) where
  entries : List (κ × α) := []
deriving DecidableEq, Repr

namespace Keyed

variable {κ α : Type} [DecidableEq κ]

def find? (values : Keyed κ α) (key : κ) : Option α := values.entries.lookup key

def contains (values : Keyed κ α) (key : κ) : Bool := (values.find? key).isSome

def isEmpty {κ α : Type} (values : Keyed κ α) : Bool := values.entries.isEmpty

def erase (values : Keyed κ α) (key : κ) : Keyed κ α :=
  ⟨values.entries.filter fun entry => entry.1 != key⟩

def put (values : Keyed κ α) (key : κ) (value : α) : Keyed κ α :=
  ⟨(key, value) :: (values.erase key).entries⟩

theorem find?_put_self (values : Keyed κ α) (key : κ) (value : α) :
    (values.put key value).find? key = some value := by
  simp [find?, put]

theorem find?_erase_self (values : Keyed κ α) (key : κ) :
    (values.erase key).find? key = none := by
  simp [find?, erase, List.lookup_eq_none_iff]
  grind

theorem find?_erase_of_ne (values : Keyed κ α) {key other : κ} (h : other ≠ key) :
    (values.erase key).find? other = values.find? other := by
  obtain ⟨entries⟩ := values
  simp only [find?, erase]
  induction entries with
  | nil => rfl
  | cons entry rest ih =>
    obtain ⟨name, value⟩ := entry
    by_cases hk : name = key
    · simp [hk, beq_eq_false_iff_ne.2 h, List.lookup_cons, ih]
    · simp [hk, List.lookup_cons, ih]

theorem find?_put_of_ne (values : Keyed κ α) {key other : κ} (value : α) (h : other ≠ key) :
    (values.put key value).find? other = values.find? other := by
  have := find?_erase_of_ne values h
  simp only [find?] at this ⊢
  simp [put, List.lookup_cons, beq_eq_false_iff_ne.2 h, this]

theorem find?_erase (values : Keyed κ α) (key other : κ) :
    (values.erase key).find? other = if other = key then none else values.find? other := by
  split
  next h => rw [h, find?_erase_self]
  next h => rw [find?_erase_of_ne _ h]

theorem find?_put (values : Keyed κ α) (key other : κ) (value : α) :
    (values.put key value).find? other = if other = key then some value else values.find? other := by
  split
  next h => rw [h, find?_put_self]
  next h => rw [find?_put_of_ne _ _ h]

theorem eq_empty_of_find? {values : Keyed κ α} (h : ∀ key, values.find? key = none) :
    values = {} := by
  obtain ⟨entries⟩ := values
  cases entries with
  | nil => rfl
  | cons entry later => simpa [find?, List.lookup_cons] using h entry.1

end Keyed

end TypedTable
