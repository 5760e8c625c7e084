import TypedTable.Interval.RangeMap
import TypedTable.Labels
import TypedTable.Table.Arena
import TypedTable.Table.Selection

/-!
# Tables of typed columns

A table is assembled from dense blocks. Columns that were added together share a chain: the blocks
of a chain follow one another downwards and have one scalar type. The column map has the first node
of every chain.
-/

set_option autoImplicit false

namespace TypedTable

/-- Rows that only the columns before `nextCol` have received. -/
structure PendingRows where
  nextCol : Nat
  rows : Nat
deriving DecidableEq, Repr

structure Table where
  rows : Nat := 0
  cols : Nat := 0
  arena : Arena := {}
  /-- The heads of the chains. -/
  chains : RangeMap Nat := {}
  pending : Option PendingRows := none
  selections : Selections := {}
  labels : Labels := {}

/-- A block of a chain; its first column is the table's column `offset`. -/
structure Segment where
  block : Block
  offset : Nat

namespace Arena

def segment (arena : Arena) (placement : Placement) : Except TableFault Segment := do
  return { block := ← arena.block placement.block, offset := placement.offset }

def segments (arena : Arena) (head : Nat) : Except TableFault (List Segment) :=
  (arena.chain head).mapM arena.segment

end Arena

namespace Table

def empty : Table := {}

instance : Inhabited Table := ⟨empty⟩

def isEmpty (table : Table) : Bool := table.cols == 0

def isRowPending (table : Table) : Bool := table.pending.isSome

def checkComplete (table : Table) : Except TableFault Unit :=
  match table.pending with
  | some pending => .error (.missingBlock pending.nextCol)
  | none => .ok ()

def checkRow (table : Table) (row : Nat) : Except TableFault Unit :=
  require (row < table.rows) (.indexOutOfBounds row .rows table.rows)

def checkCol (table : Table) (col : Nat) : Except TableFault Unit :=
  require (col < table.cols) (.indexOutOfBounds col .columns table.cols)

def head (table : Table) (col : Nat) : Except TableFault Nat :=
  match table.chains.find? col with
  | some (_, head) => .ok head
  | none => .error (.internal (.unmappedColumn col))

def columnType (table : Table) (col : Nat) : Except TableFault ScalarType := do
  table.checkCol col
  table.arena.chainType (← table.head col)

def chainLength (table : Table) (col : Nat) : Except TableFault Nat := do
  table.checkCol col
  return (table.arena.chain (← table.head col)).length

end Table

end TypedTable
