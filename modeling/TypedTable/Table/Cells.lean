import TypedTable.Table.Basic

/-!
# Reading and writing single cells

A cell is found by walking down the chain of its column until a block has its row.
-/

set_option autoImplicit false

namespace TypedTable

structure Location where
  block : Nat
  row : Nat
  col : Nat
deriving DecidableEq, Repr

namespace Arena

/-- Where the cell of column `col` is that is `row` rows below the top of the placed blocks;
`outside` is the fault for a row below them all. -/
def locate (arena : Arena) (outside : TableFault) (col : Nat) :
    List Placement → Nat → Except TableFault Location
  | [], _ => .error outside
  | placement :: below, row => do
    let block ← arena.block placement.block
    if row < block.rows then
      return { block := placement.block, row := row, col := col - placement.offset }
    else
      locate arena outside col below (row - block.rows)

end Arena

namespace Table

def checkCell (table : Table) (row col : Nat) : Except TableFault Unit := do
  table.checkComplete
  table.checkRow row
  table.checkCol col

def locate (table : Table) (row col : Nat) : Except TableFault Location := do
  table.checkCell row col
  let head ← table.head col
  table.arena.locate (.internal (.uncoveredRow row col)) col (table.arena.chain head) row

def get (heap : Heap) (table : Table) (type : ScalarType) (row col : Nat) :
    Except TableFault type.Carrier := do
  let place ← table.locate row col
  (← table.arena.block place.block).get heap type place.row place.col

def setBlock (table : Table) (number : Nat) (block : Block) : Table :=
  { table with arena := table.arena.setBlock number block }

/-- Overwrites one cell. A borrowed block writes through to its shared buffer. -/
def set (heap : Heap) (table : Table) (type : ScalarType) (row col : Nat)
    (value : type.Carrier) : Except (Refused (Heap × Table)) (Heap × Table) := do
  let place ← refuse (heap, table) (table.locate row col)
  let block ← refuse (heap, table) (table.arena.block place.block)
  let (heap, block) ← within (fun (heap, block) => (heap, table.setBlock place.block block))
    (block.set heap type place.row place.col value)
  return (heap, table.setBlock place.block block)

end Table

end TypedTable
