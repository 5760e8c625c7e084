import TypedTable.Csv.Reading
import TypedTable.Csv.TypedColumn
import TypedTable.Table.Growth
import TypedTable.Table.Labels

/-!
# Loading inputs into tables

An empty table takes over what is read: one block of the requested type, or for each run of adjacent
columns of one type a block of that type. A load that fails leaves the table empty.
-/

set_option autoImplicit false

namespace TypedTable.Csv

namespace Loading

def ofTable {σ α : Type} (result : Except (Refused σ) α) : Except ReadFault α :=
  result.mapError fun refused => .table refused.fault

def adopt {type : ScalarType} (table : Table) (rows cols : Nat) (order : Order)
    (cells : Array type.Carrier) : Except ReadFault Table :=
  ofTable (table.appendColumns {} rows cols order (.adopted cells))

/-- Labels columns with their headings. Empty headings and those that came up before are passed
over. -/
def labelColumns : List String → List String → Nat → Table → Except ReadFault Table
  | _, [], _, table => .ok table
  | seen, name :: later, col, table =>
    if name = "" ∨ name ∈ seen then
      labelColumns seen later (col + 1) table
    else do
      labelColumns (name :: seen) later (col + 1) (← ofTable (table.label name col))

def loadTyped (type : ScalarType) (table : Table) (s : Settings) (feed : Feed) :
    Except ReadFault (Table × Status × Option (List String)) := do
  let reading ← read (.scalar type) s (.ok feed)
  if reading.status = .noData then
    return (table, .noData, none)
  let table ← adopt table reading.rows reading.cols s.order reading.data
  return (table, reading.status, reading.headings)

/-- Adjacent columns of one type, one after the other. -/
structure Group where
  type : ScalarType
  width : Nat
  cells : List type.Carrier

def Group.ofColumn (column : TypedColumn) : Group :=
  { type := column.type, width := 1, cells := column.values.toList }

def Group.extend? (group : Group) (column : TypedColumn) : Option Group :=
  if h : column.type = group.type then
    some
      { group with
        width := group.width + 1
        cells := group.cells ++ h ▸ column.values.toList }
  else
    none

def adoptGroup (rows : Nat) (table : Table) (group : Group) : Except ReadFault Table :=
  adopt table rows group.width .columnMajor group.cells.toArray

/-- Puts columns into the table, a run of one type at a time. A run goes in when a column of
another type comes up, and the last one at the end. -/
def commitGroups (rows : Nat) : Option Group → List TypedColumn → Table → Except ReadFault Table
  | none, [], table => .ok table
  | some group, [], table => adoptGroup rows table group
  | none, column :: later, table => commitGroups rows (some (.ofColumn column)) later table
  | some group, column :: later, table =>
    match group.extend? column with
    | some wider => commitGroups rows (some wider) later table
    | none => do commitGroups rows (some (.ofColumn column)) later (← adoptGroup rows table group)

def loadDetected (table : Table) (s : Settings) (feed : Feed) :
    Except ReadFault (Table × Status × Option (List String)) := do
  let reading ← read (.scalar .str) { s with order := .rowMajor } (.ok feed)
  if reading.status = .noData then
    return (table, .noData, none)
  let preference : Preference :=
    { integersAsFloats := s.integersAsFloats, precision := s.precision }
  let columns :=
    TypedColumn.ofMatrix s.dialect preference reading.data reading.rows reading.cols
  let table ← commitGroups reading.rows none columns table
  return (table, reading.status, reading.headings)

end Loading

namespace Loading

def fill (table : Table) (s : Settings) (feed : Feed) : Except ReadFault (Table × Status) := do
  let (table, status, names) ← match s.loadType with
    | .fixed type => loadTyped type table s feed
    | .auto => loadDetected table s feed
  return (← labelColumns [] (names.getD []) 0 table, status)

end Loading

/-- Loads an input into a table without columns. A load that begins and fails leaves it empty. -/
def load (table : Table) (s : Settings) (input : Except ReadFault Feed) :
    Except (Halted Table) (Table × Status) :=
  match input with
  | .error fault => .error ⟨fault, table⟩
  | .ok feed =>
    if !table.isEmpty then
      .error ⟨.table (.invalidArgument .tableInUse), table⟩
    else
      (Loading.fill table s feed).mapError fun fault => ⟨fault, Table.empty⟩

def loadBytes (table : Table) (s : Settings) (bytes : List UInt8) :
    Except (Halted Table) (Table × Status) :=
  load table s (.ok (.memory bytes))

def loadFile (table : Table) (s : Settings) (path : String) (content : Option (List UInt8)) :
    Except (Halted Table) (Table × Status) :=
  load table s (Feed.openFile path content s.memoryMapped)

end TypedTable.Csv
