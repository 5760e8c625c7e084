import TypedTable.Interval.Basic

/-!
# Sets of indices

A set is kept as its maximal intervals in increasing order, with at least one missing index between
two neighbours, so equal sets are equal values.
-/

set_option autoImplicit false

namespace TypedTable

structure IndexSet where
  intervals : List Interval := []
deriving DecidableEq, Repr

namespace IndexSet

def empty : IndexSet := {}

/-- Adds an interval to a normalized list, swallowing what it overlaps or touches. -/
def insertInto (range : Interval) : List Interval → List Interval
  | [] => [range]
  | head :: rest =>
    if head.upper + 1 < range.lower then
      head :: insertInto range rest
    else if range.upper + 1 < head.lower then
      range :: head :: rest
    else
      insertInto (range.hull head) rest

def insert (set : IndexSet) (range : Interval) : IndexSet :=
  ⟨insertInto range set.intervals⟩

def below (range piece : Interval) : List Interval :=
  if h : piece.lower < range.lower then
    [{ lower := piece.lower
       upper := min piece.upper (range.lower - 1)
       lower_le_upper := by have := piece.lower_le_upper; omega }]
  else
    []

def above (range piece : Interval) : List Interval :=
  if h : range.upper < piece.upper then
    [{ lower := max piece.lower (range.upper + 1)
       upper := piece.upper
       lower_le_upper := by have := piece.lower_le_upper; omega }]
  else
    []

def erase (set : IndexSet) (range : Interval) : IndexSet :=
  ⟨set.intervals.flatMap fun piece => below range piece ++ above range piece⟩

def contains (set : IndexSet) (index : Nat) : Bool :=
  set.intervals.any (·.contains index)

instance : Membership Nat IndexSet where
  mem set index := ∃ range ∈ set.intervals, index ∈ range

def isEmpty (set : IndexSet) : Bool := set.intervals.isEmpty

def count (set : IndexSet) : Nat := set.intervals.foldr (fun range count => range.size + count) 0

def max? (set : IndexSet) : Option Nat := set.intervals.getLast?.map Interval.upper

def toList (set : IndexSet) : List Nat := set.intervals.flatMap Interval.toList

theorem contains_iff {set : IndexSet} {index : Nat} :
    set.contains index = true ↔ index ∈ set := by
  simp [contains, List.any_eq_true, Interval.contains_iff, Membership.mem]

end IndexSet

end TypedTable
