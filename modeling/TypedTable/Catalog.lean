import TypedTable.Csv.Loading
import TypedTable.Table.Cells
import TypedTable.Table.Select

/-!
# Catalogs of tables

A catalog holds numbered tables and the heap of the buffers that their blocks share. Every change of
a table is an operation on the catalog, and what a refused one leaves is kept.
-/

set_option autoImplicit false

namespace TypedTable

structure Catalog where
  heap : Heap := {}
  tables : Keyed Nat Table := {}

inductive Operation where
  | writeBuffer (type : ScalarType) (buffer : SharedBuffer type) (index : Nat)
      (value : type.Carrier)
  | appendColumns (table : Nat) (type : ScalarType) (rows cols : Nat) (order : Order)
      (storage : Storage type)
  | appendRows (table : Nat) (type : ScalarType) (rows cols : Nat) (order : Order)
      (storage : Storage type)
  | merge (table other : Nat)
  | set (table : Nat) (type : ScalarType) (row col : Nat) (value : type.Carrier)
  | label (table : Nat) (name : String) (col : Nat)
  | selectRows (table : Nat) (key : String) (rows : Interval)
  | selectCols (table : Nat) (key : String) (cols : Interval)
  | selectSlice (table : Nat) (key : String) (rows cols : Interval)
  | unselectRows (table : Nat) (key : String) (rows : Interval)
  | unselectCols (table : Nat) (key : String) (cols : Interval)
  | dropSelection (table : Nat) (key : String)
  | selectNonMissing (table : Nat) (key : String) (fullRows : Bool)
  | load (table : Nat) (settings : Csv.Settings) (input : Except Csv.ReadFault Csv.Feed)

inductive Refusal where
  | table (fault : TableFault)
  | read (fault : Csv.ReadFault)
deriving DecidableEq, Repr

def Refusal.kind : Refusal → FaultKind
  | .table fault => fault.kind
  | .read fault => fault.kind

def Refusal.message : Refusal → String
  | .table fault => fault.message
  | .read fault => fault.message

namespace Catalog

def empty : Catalog := {}

def table (catalog : Catalog) (number : Nat) : Table :=
  (catalog.tables.find? number).getD Table.empty

def put (catalog : Catalog) (number : Nat) (table : Table) : Catalog :=
  { catalog with tables := catalog.tables.put number table }

def allocate (catalog : Catalog) {type : ScalarType} (cells : Array type.Carrier) :
    SharedBuffer type × Catalog :=
  let (buffer, heap) := catalog.heap.allocate cells
  (buffer, { catalog with heap := heap })

def replace (catalog : Catalog) (number : Nat) (change : Except (Refused Table) Table) :
    Catalog × Except Refusal Status :=
  match change with
  | .ok table => (catalog.put number table, .ok .success)
  | .error refused => (catalog.put number refused.left, .error (.table refused.fault))

def replaceWith (catalog : Catalog) (number : Nat)
    (change : Except (Refused Table) (Table × Status)) : Catalog × Except Refusal Status :=
  match change with
  | .ok (table, status) => (catalog.put number table, .ok status)
  | .error refused => (catalog.put number refused.left, .error (.table refused.fault))

def perform (catalog : Catalog) : Operation → Catalog × Except Refusal Status
  | .writeBuffer _ buffer index value =>
    ({ catalog with heap := catalog.heap.write buffer index value }, .ok .success)
  | .appendColumns number _ rows cols order storage =>
    catalog.replace number
      ((catalog.table number).appendColumns catalog.heap rows cols order storage)
  | .appendRows number _ rows cols order storage =>
    catalog.replace number
      ((catalog.table number).appendRows catalog.heap rows cols order storage)
  | .merge number other =>
    match (catalog.table number).merge (catalog.table other) with
    | .ok (merged, rest) => ((catalog.put number merged).put other rest, .ok .success)
    | .error refused =>
      ((catalog.put number refused.left.1).put other refused.left.2, .error (.table refused.fault))
  | .set number type row col value =>
    match (catalog.table number).set catalog.heap type row col value with
    | .ok (heap, table) => ({ catalog with heap := heap }.put number table, .ok .success)
    | .error refused =>
      ({ catalog with heap := refused.left.1 }.put number refused.left.2,
        .error (.table refused.fault))
  | .label number name col => catalog.replace number ((catalog.table number).label name col)
  | .selectRows number key rows =>
    catalog.replace number ((catalog.table number).selectRows key rows)
  | .selectCols number key cols =>
    catalog.replace number ((catalog.table number).selectCols key cols)
  | .selectSlice number key rows cols =>
    catalog.replace number ((catalog.table number).selectSlice key rows cols)
  | .unselectRows number key rows =>
    catalog.replaceWith number ((catalog.table number).unselectRows key rows)
  | .unselectCols number key cols =>
    catalog.replaceWith number ((catalog.table number).unselectCols key cols)
  | .dropSelection number key =>
    catalog.replaceWith number (.ok ((catalog.table number).dropSelection key))
  | .selectNonMissing number key fullRows =>
    catalog.replace number
      ((catalog.table number).selectNonMissing catalog.heap key fullRows)
  | .load number settings input =>
    match Csv.load (catalog.table number) settings input with
    | .ok (table, status) => (catalog.put number table, .ok status)
    | .error halted => (catalog.put number halted.left, .error (.read halted.fault))

def run (catalog : Catalog) : List Operation → Catalog
  | [] => catalog
  | operation :: later => run (catalog.perform operation).1 later

end Catalog

end TypedTable
