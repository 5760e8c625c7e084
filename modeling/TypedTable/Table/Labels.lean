import TypedTable.Table.Basic

/-!
# Column labels

A column has at most one label and a label names at most one column.
-/

set_option autoImplicit false

namespace TypedTable.Table

def label (table : Table) (name : String) (col : Nat) : Except (Refused Table) Table := do
  refuse table table.checkComplete
  refuse table (table.checkCol col)
  return { table with labels := table.labels.attach name col }

def labeledColumn (table : Table) (name : String) : Except TableFault Nat :=
  match table.labels.index.find? name with
  | some col => .ok col
  | none => .error (.invalidArgument (.unknownLabel name))

def columnLabel (table : Table) (col : Nat) : Except TableFault String := do
  table.checkCol col
  return ((table.labels.names[col]?).getD none).getD ""

end TypedTable.Table
