import TypedTable.Interval.Bounds

/-!
# Maps keyed by disjoint intervals

An entry is kept under the lower bound of its interval, and the entries in the order of these bounds.
A look-up goes to the nearest lower bound from which an index can be reached.
-/

set_option autoImplicit false

namespace TypedTable

structure RangeMap (α : Type) where
  entries : List (Interval × α) := []
deriving Repr

namespace RangeMap

variable {α : Type}

def empty : RangeMap α := {}

/-- The last entry that begins at `index` or before. -/
def floor? (map : RangeMap α) (index : Nat) : Option (Interval × α) :=
  (map.entries.takeWhile fun entry => decide (entry.1.lower ≤ index)).getLast?

def find? (map : RangeMap α) (index : Nat) : Option (Interval × α) :=
  (map.floor? index).filter fun entry => entry.1.contains index

/-- The entries that share an index with `range`. One that begins before it may still reach into
it. -/
def range (map : RangeMap α) (range : Interval) : List (Interval × α) :=
  let first := ((map.floor? range.lower).map fun entry => entry.1.lower).getD range.lower
  map.entries.filter fun entry =>
    decide (first ≤ entry.1.lower ∧ entry.1.lower ≤ range.upper) &&
      (entry.1.intersect range).isSome

def insertInto (range : Interval) (value : α) :
    List (Interval × α) → List (Interval × α)
  | [] => [(range, value)]
  | head :: rest =>
    if head.1.lower < range.lower then head :: insertInto range value rest
    else if head.1.lower = range.lower then (range, value) :: rest
    else (range, value) :: head :: rest

def insert (map : RangeMap α) (range : Interval) (value : α) :
    Except (Refused (RangeMap α)) (RangeMap α) :=
  if (map.range range).isEmpty then
    .ok ⟨insertInto range value map.entries⟩
  else
    .error ⟨.invalidArgument (.overlap range), map⟩

def drain (map : RangeMap α) : List (Interval × α) × RangeMap α := (map.entries, empty)

def size (map : RangeMap α) : Nat := map.entries.length

def isEmpty (map : RangeMap α) : Bool := map.entries.isEmpty

end RangeMap

end TypedTable
