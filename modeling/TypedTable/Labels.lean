import TypedTable.Keyed

/-!
# Labels of columns

A label is kept in two places: with its column, and under its name with the number of the column.
Each change of one place is followed by the change of the other.
-/

set_option autoImplicit false

namespace TypedTable

structure Labels where
  /-- The label of each column. -/
  names : List (Option String) := []
  /-- The column of each label. -/
  index : Keyed String Nat := {}
deriving DecidableEq, Repr

namespace Labels

def widen (labels : Labels) (count : Nat) : Labels :=
  { labels with names := labels.names ++ List.replicate count none }

def release (labels : Labels) (name : String) : Labels :=
  match labels.index.find? name with
  | some col => { names := labels.names.set col none, index := labels.index.erase name }
  | none => labels

def clear (labels : Labels) (col : Nat) : Labels :=
  match labels.names[col]?.join with
  | some name => { names := labels.names.set col none, index := labels.index.erase name }
  | none => labels

def enter (labels : Labels) (name : String) (col : Nat) : Labels :=
  { names := labels.names.set col (some name), index := labels.index.put name col }

/-- Gives a name to a column. The column it stood for loses it, and the column loses the label it
had. -/
def attach (labels : Labels) (name : String) (col : Nat) : Labels :=
  ((labels.release name).clear col).enter name col

def enterUnused : List (Option String) → Nat → Labels → Labels
  | [], _, labels => labels
  | none :: later, col, labels => enterUnused later (col + 1) labels
  | some name :: later, col, labels =>
    enterUnused later (col + 1)
      (if labels.index.contains name then labels else labels.enter name col)

end Labels

end TypedTable
