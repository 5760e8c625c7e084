import TypedTable.Csv.Field
import TypedTable.Csv.Splitter

/-!
# Dense matrices of converted fields

The committed lines that hold data become the rows of a matrix, all their fields or the selected
ones its columns.
-/

set_option autoImplicit false

namespace TypedTable.Csv

inductive Remark where
  | droppedLine (warning : Warning)
  | ignoredLines (lines fileLines : Nat)
  | noData
  | missingEntry (line entry : Nat)
deriving DecidableEq, Repr

def Remark.text : Remark → String
  | .droppedLine warning => warning.text
  | .ignoredLines lines fileLines =>
    s!"Some lines were ignored: {lines} of {fileLines} lines were read"
  | .noData => "No data in CSV input"
  | .missingEntry line entry => s!"Missing data on line {line}, entry {entry}"

structure MatrixPlan where
  /-- Lines before the first one with data. -/
  headerLines : Nat := 0
  skipFooter : Bool := false
  warnForMissing : Bool := false
  order : Order := .rowMajor
  columns : Option (List Nat) := none
deriving DecidableEq, Repr

structure Matrix (type : FieldType) where
  data : Array type.Carrier
  rows : Nat
  cols : Nat
  status : Status
  remarks : List Remark

namespace Matrix

def usableLines (skipFooter : Bool) (s : Splitter) : List Line :=
  if skipFooter then s.lines.toList.dropLast else s.lines.toList

def empty (type : FieldType) (columns : Option (List Nat)) (usable : List Line) :
    Matrix type :=
  { data := #[]
    rows := 0
    cols := match columns, usable with
      | some columns, _ => columns.length
      | none, first :: _ => first.fields
      | none, [] => 0
    status := .noData
    remarks := [.noData] }

def fieldsPerLine (lines : List Line) : Nat :=
  lines.foldr (fun line fields => line.fields + fields) 0 / lines.length

def sourceColumns (columns : Option (List Nat)) (lines : List Line) : List Nat :=
  columns.getD (List.range (fieldsPerLine lines))

/-- The number of fields that a line needs. It is a machine word, and wraps where the last column
that can be counted is selected. -/
def neededFields (columns : Option (List Nat)) (lines : List Line) : Nat :=
  match columns with
  | some columns => (columns.max?.map fun last => (last + 1) % wordLimit).getD 0
  | none => fieldsPerLine lines

/-- Without a selection of columns a line must have just the fields needed. -/
def isRagged (columns : Option (List Nat)) (needed : Nat) (line : Line) : Bool :=
  if columns.isSome then decide (line.fields < needed) else decide (line.fields ≠ needed)

def checkWidth (columns : Option (List Nat)) (needed : Nat) (lines : List Line) :
    Except ReadFault Unit :=
  match lines.find? (isRagged columns needed) with
  | some line => .error (.ragged line.number line.fields needed)
  | none => .ok ()

def entry (d : Dialect) (type : FieldType) (warnForMissing : Bool) (line : Nat)
    (field : List UInt8) (index : Nat) :
    Except ReadFault (type.Carrier × Option Remark) :=
  match Field.convert d type field with
  | .ok converted => .ok (converted.value, none)
  | .error fault =>
    if warnForMissing then .ok (type.missing, some (.missingEntry line index))
    else .error (.field line index fault)

/-- Where a column of a line is among all fields. The sum is a machine word too; for a field that
the line has it does not wrap. -/
def fieldIndex (line : Line) (column : Nat) : Nat :=
  if column < line.fields then line.start + column else (line.start + column) % wordLimit

def row (d : Dialect) (type : FieldType) (warnForMissing : Bool) (s : Splitter)
    (sources : List Nat) (line : Line) : Except ReadFault (List (type.Carrier × Option Remark)) :=
  sources.zipIdx.mapM fun source =>
    entry d type warnForMissing line.number (s.stream.field (fieldIndex line source.1)) source.2

def arrange {α : Type} (order : Order) (rows cols : Nat) (missing : α) (cells : Array α) :
    Array α :=
  match order with
  | .rowMajor => cells
  | .columnMajor =>
    ((List.range (rows * cols)).map fun place =>
      cells.getD (place % rows * cols + place / rows) missing).toArray

def ofLines (d : Dialect) (type : FieldType) (plan : MatrixPlan) (s : Splitter) :
    Except ReadFault (Matrix type) :=
  let usable := usableLines plan.skipFooter s
  let lines := usable.drop plan.headerLines
  if lines.isEmpty then
    .ok (empty type plan.columns usable)
  else do
    let sources := sourceColumns plan.columns lines
    checkWidth plan.columns (neededFields plan.columns lines) lines
    let rows ← lines.mapM (row d type plan.warnForMissing s sources)
    let entries := rows.flatten
    let remarks := entries.filterMap (·.2)
    return {
      data := arrange plan.order lines.length sources.length type.missing
        (entries.map (·.1)).toArray
      rows := lines.length
      cols := sources.length
      status := if remarks.isEmpty then .success else .missingData
      remarks := remarks }

end Matrix

def headingTexts (d : Dialect) (s : Splitter) (cols : Nat) (columns : Option (List Nat)) :
    Except ReadFault (List String) :=
  match s.lines[0]? with
  | none => .ok []
  | some line =>
    let name (index : Nat) : String := Field.toText d (s.stream.field (line.start + index))
    match columns with
    | some columns =>
      match columns.find? fun column => decide (line.fields ≤ column) with
      | some column => .error (.ragged line.number line.fields ((column + 1) % wordLimit))
      | none => .ok (columns.map name)
    | none =>
      if line.fields ≠ cols then .error (.ragged line.number line.fields cols)
      else .ok ((List.range line.fields).map name)

end TypedTable.Csv
