import TypedTable.Fault

/-!
# Intervals from a caller's numbers

Indices are machine words, so an interval given by its start and its size must end below `2 ^ 64`.
-/

set_option autoImplicit false

namespace TypedTable

/-- Indices and sizes are below this bound. -/
def wordLimit : Nat := Nat.pow 2 64

namespace Interval

def ofBounds (lower upper : Nat) : Except TableFault Interval :=
  if h : lower ≤ upper then
    .ok { lower := lower, upper := upper, lower_le_upper := h }
  else
    .error (.invalidArgument (.invertedInterval lower upper))

def ofSize (start size : Nat) : Except TableFault Interval :=
  if size = 0 then
    .error (.invalidArgument .emptyInterval)
  else if wordLimit ≤ start + (size - 1) then
    .error (.overflow (.interval start size))
  else
    .ok { lower := start, upper := start + (size - 1), lower_le_upper := Nat.le_add_right _ _ }

end Interval

end TypedTable
