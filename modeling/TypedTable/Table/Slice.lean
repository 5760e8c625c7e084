import TypedTable.Table.Basic

/-!
# Copying rectangles out of a table

A rectangle is copied chain by chain and block by block. The output is column-major: columns are
`lead` elements apart, and what the rectangle does not cover keeps its value.
-/

set_option autoImplicit false

namespace TypedTable

variable {type : ScalarType}

def Segment.copyColumn (heap : Heap) (type : ScalarType) (col : Nat) :
    List Segment → Nat → Array type.Carrier → Except TableFault (Array type.Carrier)
  | [], _, out => .ok out
  | segment :: below, first, out => do
    let dense ← segment.block.typed type
    let rows ← Interval.ofSize 0 dense.rows
    let out ← dense.copyRectangle heap rows (.point (col - segment.offset)) dense.rows out first
    copyColumn heap type col below (first + dense.rows) out

/-- Copies what the segments hold of `rows` and `part`; `first` is the row at their top, and `cols`
are the columns of the whole rectangle. -/
def Segment.copySlice (heap : Heap) (type : ScalarType) (rows cols part : Interval)
    (lead start : Nat) :
    List Segment → Nat → Array type.Carrier → Except TableFault (Array type.Carrier)
  | [], _, out => .ok out
  | segment :: below, first, out => do
    let dense ← segment.block.typed type
    let covered ← Interval.ofSize first dense.rows
    let out ← match covered.intersect rows with
      | none => pure out
      | some hit => do
        let localRows ← Interval.ofBounds (hit.lower - first) (hit.upper - first)
        let localCols ← Interval.ofBounds (part.lower - segment.offset) (part.upper - segment.offset)
        dense.copyRectangle heap localRows localCols lead out
          (Dense.target start lead (hit.lower - rows.lower) (part.lower - cols.lower))
    copySlice heap type rows cols part lead start below (first + dense.rows) out

namespace Table

def extractColumn (heap : Heap) (table : Table) (type : ScalarType) (col expectedRows : Nat)
    (out : Array type.Carrier) : Except TableFault (Array type.Carrier) := do
  table.checkComplete
  table.checkCol col
  require (expectedRows = table.rows) (.dimensionMismatch table.rows expectedRows)
  require (table.rows ≤ out.size) (.invalidArgument (.shortOutput out.size table.rows))
  Segment.copyColumn heap type col (← table.arena.segments (← table.head col)) 0 out

def checkExtracted (arena : Arena) (type : ScalarType) (entry : Interval × Nat) :
    Except TableFault Unit := do
  let found ← arena.chainType entry.2
  require (found = type) (.typeMismatch (.extract entry.1 found type))

def copyChain (heap : Heap) (arena : Arena) (type : ScalarType) (rows cols : Interval)
    (lead start : Nat) (out : Array type.Carrier) (entry : Interval × Nat) :
    Except TableFault (Array type.Carrier) :=
  match entry.1.intersect cols with
  | none => .ok out
  | some part => do
    Segment.copySlice heap type rows cols part lead start (← arena.segments entry.2) 0 out

def extractSlice (heap : Heap) (table : Table) (type : ScalarType) (rows cols : Interval)
    (lead start : Nat) (out : Array type.Carrier) :
    Except TableFault (Array type.Carrier) := do
  table.checkComplete
  table.checkRow rows.upper
  table.checkCol cols.upper
  require (rows.size ≤ lead) (.invalidArgument (.narrowExtract lead rows.size))
  (table.chains.range cols).forM (checkExtracted table.arena type)
  (table.chains.range cols).foldlM (copyChain heap table.arena type rows cols lead start) out

end Table

end TypedTable
