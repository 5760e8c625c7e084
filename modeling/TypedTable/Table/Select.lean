import TypedTable.Table.Slice

/-!
# Selecting rows and columns

Selections are changed by adding and removing intervals, or by dropping every row with a missing
value; a selection is copied out as one dense rectangle.
-/

set_option autoImplicit false

namespace TypedTable

def Segment.maskMissing (heap : Heap) (part : Interval) :
    List Segment → List Bool → Except TableFault (List Bool)
  | [], mask => .ok mask
  | segment :: below, mask => do
    let dense := segment.block.dense
    let rows ← Interval.ofSize 0 dense.rows
    let cols ← Interval.ofBounds (part.lower - segment.offset) (part.upper - segment.offset)
    let top ← dense.maskMissing heap (mask.take dense.rows) rows cols
    let rest ← maskMissing heap part below (mask.drop dense.rows)
    return top ++ rest

namespace Table

def allRows (table : Table) : Except TableFault Interval :=
  match Interval.ofSize 0 table.rows with
  | .ok rows => .ok rows
  | .error _ => .error (.invalidArgument .noRows)

def allCols (table : Table) : Except TableFault Interval :=
  match Interval.ofSize 0 table.cols with
  | .ok cols => .ok cols
  | .error _ => .error (.invalidArgument .noColumns)

def withSelection (table : Table) (key : String) (selection : Selection) : Table :=
  { table with selections := table.selections.put key selection }

def selectRows (table : Table) (key : String) (rows : Interval) :
    Except (Refused Table) Table := do
  refuse table table.checkComplete
  refuse table (table.checkRow rows.upper)
  let selection := table.selections.findOrNew key
  return table.withSelection key { selection with rows := selection.rows.insert rows }

def selectCols (table : Table) (key : String) (cols : Interval) :
    Except (Refused Table) Table := do
  refuse table table.checkComplete
  refuse table (table.checkCol cols.upper)
  let selection := table.selections.findOrNew key
  return table.withSelection key { selection with cols := selection.cols.insert cols }

def restoreSelection (table : Table) (key : String) (previous : Option Selection) : Table :=
  match previous with
  | some selection => table.withSelection key selection
  | none => { table with selections := table.selections.erase key }

/-- Adds to both halves of a selection. If one of them is refused, the name stands for what it
stood for. -/
def selectSlice (table : Table) (key : String) (rows cols : Interval) :
    Except (Refused Table) Table := do
  refuse table table.checkComplete
  let previous := table.selections.find? key
  within (restoreSelection · key previous) do
    (← table.selectRows key rows).selectCols key cols

def unselectRows (table : Table) (key : String) (rows : Interval) :
    Except (Refused Table) (Table × Status) := do
  refuse table table.checkComplete
  match table.selections.find? key with
  | some selection =>
    return (table.withSelection key { selection with rows := selection.rows.erase rows }, .success)
  | none => return (table, .unknownSelection)

def unselectCols (table : Table) (key : String) (cols : Interval) :
    Except (Refused Table) (Table × Status) := do
  refuse table table.checkComplete
  match table.selections.find? key with
  | some selection =>
    return (table.withSelection key { selection with cols := selection.cols.erase cols }, .success)
  | none => return (table, .unknownSelection)

def dropSelection (table : Table) (key : String) : Table × Status :=
  if table.selections.contains key then
    ({ table with selections := table.selections.erase key }, .success)
  else
    (table, .unknownSelection)

/-- Takes the rows with a cleared mark out of a set, a run of them at a time. The current run began
at `start`, and the next mark that is set ends it. -/
def eraseCleared : List Bool → Nat → Option Nat → IndexSet → Except TableFault IndexSet
  | [], _, _, rows => .ok rows
  | false :: rest, row, none, rows => eraseCleared rest (row + 1) (some row) rows
  | true :: rest, row, some start, rows => do
    let run ← Interval.ofBounds start (row - 1)
    eraseCleared rest (row + 1) none (rows.erase run)
  | _ :: rest, row, start, rows => eraseCleared rest (row + 1) start rows

def maskChain (heap : Heap) (arena : Arena) (cols : Interval) (mask : List Bool)
    (entry : Interval × Nat) : Except TableFault (List Bool) :=
  match entry.1.intersect cols with
  | none => .ok mask
  | some part => do Segment.maskMissing heap part (← arena.segments entry.2) mask

def validRows (heap : Heap) (table : Table) (inspected : IndexSet) :
    Except TableFault (List Bool) :=
  inspected.intervals.foldlM
    (fun mask cols => (table.chains.range cols).foldlM (maskChain heap table.arena cols) mask)
    (List.replicate table.rows true)

/-- Removes the rows with a missing value from a selection. All columns are inspected if `fullRows`
is set or the selection has none; a selection without rows starts from all of them. -/
def selectNonMissing (heap : Heap) (table : Table) (key : String) (fullRows : Bool) :
    Except (Refused Table) Table := do
  refuse table table.checkComplete
  let allRows ← refuse table table.allRows
  let allCols ← refuse table table.allCols
  let selection := table.selections.findOrNew key
  let inspected :=
    if fullRows ∨ selection.cols.isEmpty then IndexSet.empty.insert allCols else selection.cols
  let valid ← refuse table (table.validRows heap inspected)
  let rows := if selection.rows.isEmpty then selection.rows.insert allRows else selection.rows
  -- one more mark ends a run that reaches the last row
  let rows ← refuse table (eraseCleared (valid ++ [true]) 0 none rows)
  return table.withSelection key { selection with rows := rows }

def requestedSelection (table : Table) (key : String) :
    Except TableFault (Selection × Status) :=
  if table.selections.isEmpty then
    .ok ({}, .fullExtraction)
  else
    match table.selections.find? key with
    | some selection => .ok (selection, .success)
    | none => .error (.invalidArgument (.unknownSelection key))

def filledRows (table : Table) (rows : IndexSet) : Except TableFault IndexSet :=
  if rows.isEmpty then do return rows.insert (← table.allRows) else .ok rows

def filledCols (table : Table) (cols : IndexSet) : Except TableFault IndexSet :=
  if cols.isEmpty then do return cols.insert (← table.allCols) else .ok cols

def copyRows (heap : Heap) (table : Table) (type : ScalarType) (cols : Interval) (lead : Nat) :
    List Interval → Nat → Array type.Carrier → Except TableFault (Array type.Carrier)
  | [], _, out => .ok out
  | rows :: later, start, out => do
    let out ← table.extractSlice heap type rows cols lead start out
    copyRows heap table type cols lead later (start + rows.size) out

def copySelected (heap : Heap) (table : Table) (type : ScalarType) (rows : List Interval)
    (lead : Nat) :
    List Interval → Nat → Array type.Carrier → Except TableFault (Array type.Carrier)
  | [], _, out => .ok out
  | cols :: later, done, out => do
    let out ← table.copyRows heap type cols lead rows (done * lead) out
    copySelected heap table type rows lead later (done + cols.size) out

/-- The pieces of `size` elements that an array consists of; a shorter rest is left out. -/
def chunksExact {α : Type} (size : Nat) (elements : Array α) : List (List α) :=
  (List.range (elements.size / size)).map fun done =>
    (elements.extract (done * size) (done * size + size)).toList

def transpose {α : Type} (rows lead : Nat) (dense out : Array α) : Array α :=
  (chunksExact rows dense).zipIdx.foldl (fun out (column, col) => overwrite lead col column out) out

/-- Copies a selection into `out`. The leading dimension is the distance of two columns, or of two
rows for row-major output. -/
def extractSelection (heap : Heap) (table : Table) (type : ScalarType) (key : String)
    (order : Order) (lead : Nat) (out : Array type.Carrier) :
    Except TableFault (Array type.Carrier × Status) := do
  table.checkComplete
  let (selection, status) ← table.requestedSelection key
  let rows ← table.filledRows selection.rows
  let cols ← table.filledCols selection.cols
  let (inner, outer) := match order with
    | .columnMajor => (rows.count, cols.count)
    | .rowMajor => (cols.count, rows.count)
  require (inner ≤ lead) (.invalidArgument (.narrowSelection lead inner))
  let needed := lead * (outer - 1) + inner
  require (needed ≤ out.size) (.invalidArgument (.shortOutput out.size needed))
  match order with
  | .columnMajor =>
    return (← table.copySelected heap type rows.intervals lead cols.intervals 0 out, status)
  | .rowMajor =>
    let dense ← table.copySelected heap type rows.intervals rows.count cols.intervals 0
      (Array.replicate (rows.count * cols.count) type.blank)
    return (transpose rows.count lead dense out, status)

end Table

end TypedTable
