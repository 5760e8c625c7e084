import TypedTable.Csv.Field
import TypedTable.Csv.Settings

/-!
# Columns whose type is found from their cells

A column begins as one of integers. Each cell leaves its type as it is or widens it to a floating
point type; a cell that it cannot hold makes it one of strings for good.
-/

set_option autoImplicit false

namespace TypedTable.Csv

inductive TypedColumn where
  | int (values : Array Int64)
  | float (values : Array Float32)
  | double (values : Array Float)
  | bool (values : Array UInt8)
  | str (values : Array String)

/-- Whether integers are looked for at all, and which floating point type is. -/
structure Preference where
  integersAsFloats : Bool := false
  precision : Precision := .double
deriving DecidableEq, Repr

inductive CellValue where
  | int (value : Int64)
  | float (value : Float32)
  | double (value : Float)
  | bool (value : UInt8)

namespace CellValue

def bytes (text : String) : List UInt8 := text.toUTF8.toList

def ofFloatText? (d : Dialect) (precision : Precision) (field : List UInt8) : Option CellValue :=
  match precision with
  | .double => (Field.value? d (.scalar .double) field).map .double
  | .single => (Field.value? d (.scalar .float) field).map .float

/-- The first of the types that the text is a value of: integer, floating point, boolean. -/
def ofText? (d : Dialect) (preference : Preference) (text : String) : Option CellValue :=
  let field := bytes text
  let integer :=
    if preference.integersAsFloats then none
    else (Field.value? d (.scalar .int) field).map CellValue.int
  integer <|> ofFloatText? d preference.precision field <|>
    (Field.value? d (.scalar .bool) field).map CellValue.bool

end CellValue

namespace TypedColumn

def type : TypedColumn → ScalarType
  | .int _ => .int
  | .float _ => .float
  | .double _ => .double
  | .bool _ => .bool
  | .str _ => .str

def values : (column : TypedColumn) → Array column.type.Carrier
  | .int values => values
  | .float values => values
  | .double values => values
  | .bool values => values
  | .str values => values

def size (column : TypedColumn) : Nat := column.values.size

def push? : TypedColumn → CellValue → Option TypedColumn
  | .int values, .int v => some (.int (values.push v))
  | .int values, .double v => some (.double ((values.map Int64.toFloat).push v))
  | .int values, .float v => some (.float ((values.map Int64.toFloat32).push v))
  | .int values, .bool v => if values.isEmpty then some (.bool #[v]) else none
  | .double values, .double v => some (.double (values.push v))
  | .double values, .int v => some (.double (values.push v.toFloat))
  | .float values, .float v => some (.float (values.push v))
  | .float values, .int v => some (.float (values.push v.toFloat32))
  | .bool values, .bool v => some (.bool (values.push v))
  | _, _ => none

def addCell? (d : Dialect) (preference : Preference) (column : TypedColumn) (text : String) :
    Option TypedColumn :=
  (CellValue.ofText? d preference text).bind column.push?

/-- The column after one more row. One of strings takes the text as it is. One that cannot hold the
cell becomes one of strings, and holds the texts of all rows so far. -/
def addRow (d : Dialect) (preference : Preference) (cells : List String) (column : TypedColumn)
    (row : Nat) : TypedColumn :=
  let text := cells.getD row ""
  match column with
  | .str texts => .str (texts.push text)
  | column => (addCell? d preference column text).getD (.str (cells.take (row + 1)).toArray)

def ofCells (d : Dialect) (preference : Preference) (cells : List String) : TypedColumn :=
  (List.range cells.length).foldl (addRow d preference cells) (.int #[])

def ofMatrix (d : Dialect) (preference : Preference) (cells : Array String) (rows cols : Nat) :
    List TypedColumn :=
  (List.range cols).map fun col =>
    ofCells d preference ((List.range rows).map fun row => cells.getD (row * cols + col) "")

end TypedColumn

end TypedTable.Csv
