import TypedTable.Catalog

/-!
# Sheets

A sheet is what a table stands for: typed columns of values, side by side and of one height. It knows
nothing of blocks, chains or storage orders, apart from the order in which an input is written down.
-/

set_option autoImplicit false

namespace TypedTable

structure Column where
  type : ScalarType
  values : List type.Carrier

namespace Column

def ofInput {type : ScalarType} (rows cols : Nat) (order : Order) (input : Array type.Carrier)
    (col : Nat) : Column :=
  { type := type
    values := (List.range rows).map fun row =>
      match order with
      | .rowMajor => input.getD (row * cols + col) type.blank
      | .columnMajor => input.getD (col * rows + row) type.blank }

def below (top piece : Column) : Column :=
  { type := top.type
    values := top.values ++ if h : piece.type = top.type then h ▸ piece.values else [] }

def set (column : Column) (row : Nat) (type : ScalarType) (value : type.Carrier) : Column :=
  { type := column.type
    values :=
      if h : type = column.type then column.values.set row (h ▸ value) else column.values }

end Column

structure Sheet where
  rows : Nat := 0
  columns : List Column := []
  /-- New rows of the columns on the left, as long as those of the others are missing. -/
  incoming : List Column := []

namespace Sheet

def pieces {type : ScalarType} (rows cols : Nat) (order : Order) (input : Array type.Carrier) :
    List Column :=
  (List.range cols).map (Column.ofInput rows cols order input)

def appendColumns (sheet : Sheet) (rows : Nat) (pieces : List Column) : Sheet :=
  { sheet with rows := rows, columns := sheet.columns ++ pieces }

def appendRows (sheet : Sheet) (rows : Nat) (pieces : List Column) : Sheet :=
  if sheet.columns.isEmpty then
    sheet.appendColumns rows pieces
  else if (sheet.incoming ++ pieces).length < sheet.columns.length then
    { sheet with incoming := sheet.incoming ++ pieces }
  else
    { rows := sheet.rows + rows
      columns := List.zipWith Column.below sheet.columns (sheet.incoming ++ pieces) }

def join (sheet other : Sheet) : Sheet :=
  { rows := if sheet.columns.isEmpty then other.rows else sheet.rows
    columns := sheet.columns ++ other.columns }

def set (sheet : Sheet) (row col : Nat) (type : ScalarType) (value : type.Carrier) : Sheet :=
  { sheet with columns := sheet.columns.modify col (·.set row type value) }

end Sheet

def Sheets : Type := Nat → Sheet

namespace Sheets

def empty : Sheets := fun _ => {}

def put (sheets : Sheets) (number : Nat) (sheet : Sheet) : Sheets :=
  fun other => if other = number then sheet else sheets other

def perform (sheets : Sheets) : Operation → Sheets
  | .appendColumns number _ rows cols order storage =>
    sheets.put number
      ((sheets number).appendColumns rows (Sheet.pieces rows cols order (storage.cells {})))
  | .appendRows number _ rows cols order storage =>
    sheets.put number
      ((sheets number).appendRows rows (Sheet.pieces rows cols order (storage.cells {})))
  | .merge number other => (sheets.put number ((sheets number).join (sheets other))).put other {}
  | .set number type row col value => sheets.put number ((sheets number).set row col type value)
  | _ => sheets

def run (sheets : Sheets) : List Operation → Sheets
  | [] => sheets
  | operation :: later => run (sheets.perform operation) later

end Sheets

end TypedTable
