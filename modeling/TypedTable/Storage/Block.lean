import TypedTable.Storage.Heap
import TypedTable.Interval.Bounds

/-!
# Dense blocks

A block is a full rectangle of one scalar type. Its cells are its own or lie in a shared buffer;
the storage order says which cell of the storage is which cell of the rectangle.
-/

set_option autoImplicit false

namespace TypedTable

/-- Puts values one after the other into an array, from `place` on and `gap` places apart. -/
def overwrite {α : Type} (gap place : Nat) (values : List α) (out : Array α) : Array α :=
  values.zipIdx.foldl (fun out (value, done) => out.setIfInBounds (place + done * gap) value) out

inductive Ownership where
  | borrowed
  | copied
  | adopted
deriving DecidableEq, Repr

inductive Storage (type : ScalarType) where
  | copied (cells : Array type.Carrier)
  | adopted (cells : Array type.Carrier)
  | borrowed (buffer : SharedBuffer type)

namespace Storage

variable {type : ScalarType}

def ownership : Storage type → Ownership
  | .copied _ => .copied
  | .adopted _ => .adopted
  | .borrowed _ => .borrowed

def cells (heap : Heap) : Storage type → Array type.Carrier
  | .copied cells => cells
  | .adopted cells => cells
  | .borrowed buffer => heap.contents buffer

/-- Drops what a block of `size` cells does not need; a shared buffer stays whole. -/
def truncate (size : Nat) : Storage type → Storage type
  | .copied cells => .copied (cells.take size)
  | .adopted cells => .adopted (cells.take size)
  | .borrowed buffer => .borrowed buffer

def write (heap : Heap) (index : Nat) (value : type.Carrier) :
    Storage type → Heap × Storage type
  | .copied cells => (heap, .copied (cells.setIfInBounds index value))
  | .adopted cells => (heap, .adopted (cells.setIfInBounds index value))
  | .borrowed buffer => (heap.write buffer index value, .borrowed buffer)

end Storage

structure Dense (type : ScalarType) where
  rows : Nat
  cols : Nat
  order : Order
  storage : Storage type

namespace Dense

variable {type : ScalarType}

def make (heap : Heap) (rows cols : Nat) (order : Order) (storage : Storage type) :
    Except TableFault (Dense type) :=
  if rows = 0 ∨ cols = 0 then
    .error (.invalidArgument (.emptyBlock rows cols))
  else if wordLimit ≤ rows * cols then
    .error (.overflow (.block rows cols))
  else if (storage.cells heap).size < rows * cols then
    .error (.invalidArgument (.shortInput (storage.cells heap).size (rows * cols)))
  else
    .ok { rows := rows, cols := cols, order := order, storage := storage.truncate (rows * cols) }

def cells (heap : Heap) (dense : Dense type) : Array type.Carrier := dense.storage.cells heap

def offset (dense : Dense type) (row col : Nat) : Nat :=
  dense.order.offset row col dense.rows dense.cols

def cell? (heap : Heap) (dense : Dense type) (row col : Nat) : Option type.Carrier :=
  (dense.cells heap)[dense.offset row col]?

def checkCell (dense : Dense type) (row col : Nat) : Except TableFault Unit :=
  if dense.rows ≤ row then
    .error (.indexOutOfBounds row .rows dense.rows)
  else if dense.cols ≤ col then
    .error (.indexOutOfBounds col .columns dense.cols)
  else
    .ok ()

def checkRectangle (dense : Dense type) (rows cols : Interval) : Except TableFault Unit :=
  dense.checkCell rows.upper cols.upper

def get (heap : Heap) (dense : Dense type) (row col : Nat) : Except TableFault type.Carrier := do
  dense.checkCell row col
  match dense.cell? heap row col with
  | some value => .ok value
  | none => .error (.internal (.cellOutsideStorage (dense.offset row col)))

def set (heap : Heap) (dense : Dense type) (row col : Nat) (value : type.Carrier) :
    Except (Refused (Heap × Dense type)) (Heap × Dense type) := do
  refuse (heap, dense) (dense.checkCell row col)
  let (heap, storage) := dense.storage.write heap (dense.offset row col) value
  .ok (heap, { dense with storage := storage })

/-- Where the cell that is `row` rows and `col` columns into a rectangle goes in a column-major
output with leading dimension `lead`. -/
def target (start lead row col : Nat) : Nat := start + col * lead + row

def columnPart (heap : Heap) (dense : Dense type) (rows : Interval) (col : Nat) :
    List type.Carrier :=
  match dense.order with
  | .columnMajor =>
    let first := dense.offset rows.lower col
    ((dense.cells heap).extract first (first + rows.size)).toList
  | .rowMajor => rows.toList.filterMap (dense.cell? heap · col)

def copyColumns (heap : Heap) (dense : Dense type) (rows cols : Interval) (lead : Nat)
    (out : Array type.Carrier) (start : Nat) : Array type.Carrier :=
  cols.toList.zipIdx.foldl
    (fun out (col, done) => overwrite 1 (start + done * lead) (dense.columnPart heap rows col) out)
    out

/-- Copies a rectangle column-major into `out` from `start` on, its columns `lead` elements
apart. -/
def copyRectangle (heap : Heap) (dense : Dense type) (rows cols : Interval) (lead : Nat)
    (out : Array type.Carrier) (start : Nat) : Except TableFault (Array type.Carrier) := do
  dense.checkRectangle rows cols
  let needed := start + (cols.size - 1) * lead + rows.size
  if lead < rows.size then
    .error (.invalidArgument (.narrowCopy lead rows.size))
  else if out.size < needed then
    .error (.invalidArgument (.shortOutput out.size needed))
  else
    .ok (dense.copyColumns heap rows cols lead out start)

def maskColumn (heap : Heap) (dense : Dense type) (rows : Interval) (mask : List Bool)
    (col : Nat) : List Bool :=
  rows.toList.zipIdx.foldl
    (fun mask (row, place) =>
      if (dense.cell? heap row col).any type.isMissing then mask.set place false else mask)
    mask

/-- Clears the mark of every row of `rows` in which one of `cols` has a missing value; the first
mark is that of the first row. -/
def maskMissing (heap : Heap) (dense : Dense type) (mask : List Bool) (rows cols : Interval) :
    Except TableFault (List Bool) := do
  dense.checkRectangle rows cols
  if mask.length < rows.size then
    .error (.invalidArgument (.shortMask mask.length rows.size))
  else if !type.hasSentinel then
    .ok mask
  else
    .ok (cols.toList.foldl (dense.maskColumn heap rows) mask)

end Dense

structure Block where
  type : ScalarType
  dense : Dense type

namespace Block

def rows (block : Block) : Nat := block.dense.rows

def cols (block : Block) : Nat := block.dense.cols

def ownership (block : Block) : Ownership := block.dense.storage.ownership

def typed (block : Block) (type : ScalarType) : Except TableFault (Dense type) :=
  if h : block.type = type then
    .ok (h ▸ block.dense)
  else
    .error (.typeMismatch (.block block.type type))

def get (heap : Heap) (block : Block) (type : ScalarType) (row col : Nat) :
    Except TableFault type.Carrier := do
  (← block.typed type).get heap row col

def set (heap : Heap) (block : Block) (type : ScalarType) (row col : Nat)
    (value : type.Carrier) : Except (Refused (Heap × Block)) (Heap × Block) := do
  let dense ← refuse (heap, block) (block.typed type)
  let (heap, dense) ← within (fun (heap, dense) => (heap, ⟨type, dense⟩))
    (dense.set heap row col value)
  .ok (heap, ⟨type, dense⟩)

end Block

end TypedTable
