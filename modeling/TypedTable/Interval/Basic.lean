/-!
# Closed intervals of indices

A range of rows or columns is never empty: it runs from its lower to its upper index,
both included.
-/

set_option autoImplicit false

namespace TypedTable

structure Interval where
  lower : Nat
  upper : Nat
  lower_le_upper : lower ≤ upper := by omega
deriving DecidableEq, Repr

namespace Interval

def point (index : Nat) : Interval := { lower := index, upper := index }

def size (range : Interval) : Nat := range.upper - range.lower + 1

def contains (range : Interval) (index : Nat) : Bool :=
  decide (range.lower ≤ index ∧ index ≤ range.upper)

instance : Membership Nat Interval where
  mem range index := range.lower ≤ index ∧ index ≤ range.upper

def fits (range : Interval) (bound : Nat) : Bool := decide (range.upper < bound)

def intersect (a b : Interval) : Option Interval :=
  if h : max a.lower b.lower ≤ min a.upper b.upper then
    some { lower := max a.lower b.lower, upper := min a.upper b.upper, lower_le_upper := h }
  else
    none

def shift (range : Interval) (amount : Nat) : Interval :=
  { lower := range.lower + amount
    upper := range.upper + amount
    lower_le_upper := Nat.add_le_add_right range.lower_le_upper amount }

def hull (a b : Interval) : Interval :=
  { lower := min a.lower b.lower
    upper := max a.upper b.upper
    lower_le_upper := by have := a.lower_le_upper; omega }

def order (a b : Interval) : Ordering :=
  (compare a.lower b.lower).then (compare a.upper b.upper)

def text (range : Interval) : String := s!"[{range.lower}, {range.upper}]"

def toList (range : Interval) : List Nat := List.range' range.lower range.size

@[simp] theorem mem_def {range : Interval} {index : Nat} :
    index ∈ range ↔ range.lower ≤ index ∧ index ≤ range.upper := Iff.rfl

theorem contains_iff {range : Interval} {index : Nat} :
    range.contains index = true ↔ index ∈ range := by
  simp [contains]

theorem fits_iff {range : Interval} {bound : Nat} :
    range.fits bound = true ↔ range.upper < bound := by
  simp [fits]

theorem size_pos (range : Interval) : 0 < range.size := Nat.succ_pos _

theorem mem_toList {range : Interval} {index : Nat} :
    index ∈ range.toList ↔ index ∈ range := by
  have := range.lower_le_upper
  simp only [toList, size, List.mem_range'_1, mem_def]
  omega

theorem intersect_eq_none_iff {a b : Interval} :
    a.intersect b = none ↔ ∀ index, index ∈ a → index ∉ b := by
  have ha := a.lower_le_upper
  have hb := b.lower_le_upper
  unfold intersect
  split
  · rename_i h
    simp only [reduceCtorEq, mem_def, false_iff]
    intro hall
    have := hall (max a.lower b.lower)
    omega
  · rename_i h
    simp only [mem_def, true_iff]
    intro index
    omega

theorem mem_of_intersect {a b part : Interval} (h : a.intersect b = some part) (index : Nat) :
    index ∈ part ↔ index ∈ a ∧ index ∈ b := by
  unfold intersect at h
  split at h
  · obtain rfl := Option.some.inj h
    simp only [mem_def]
    omega
  · simp at h

end Interval

end TypedTable
