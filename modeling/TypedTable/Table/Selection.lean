import TypedTable.Interval.IndexSet
import TypedTable.Keyed

/-!
# Named selections

A selection is a set of rows and a set of columns under a name. An empty half stands for every
index of its dimension when the selection is extracted.
-/

set_option autoImplicit false

namespace TypedTable

structure Selection where
  rows : IndexSet := {}
  cols : IndexSet := {}
deriving DecidableEq, Repr

abbrev Selections := Keyed String Selection

def Selections.findOrNew (selections : Selections) (key : String) : Selection :=
  (selections.find? key).getD {}

end TypedTable
