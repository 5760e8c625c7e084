import TypedTable.Table.Basic

/-!
# Growing a table

Columns are added to the right, rows below, and one table can take over the columns of another. Rows
may come in several blocks from left to right; until the last column has its rows, every other
operation is refused.
-/

set_option autoImplicit false

namespace TypedTable.Table

variable {type : ScalarType}

def withChains (table : Table) (chains : RangeMap Nat) : Table := { table with chains := chains }

def addColumns (table : Table) (block : Block) (chains : RangeMap Nat) : Table :=
  { table with
    rows := block.rows
    cols := table.cols + block.cols
    arena := (table.arena.addHead ⟨table.arena.blocks.size, table.cols⟩).addBlock block
    chains := chains
    labels := table.labels.widen block.cols }

def appendColumns (heap : Heap) (table : Table) (rows cols : Nat) (order : Order)
    (storage : Storage type) : Except (Refused Table) Table := do
  refuse table table.checkComplete
  refuse table (require (0 < table.cols → rows = table.rows) (.dimensionMismatch table.rows rows))
  let dense ← refuse table (Dense.make heap rows cols order storage)
  let span ← refuse table (Interval.ofSize table.cols cols)
  let chains ← within table.withChains (table.chains.insert span table.arena.nodes.size)
  return table.addColumns ⟨type, dense⟩ chains

/-- The last node of a chain that a block of rows over `span` goes below. The block covers whole
chains of its own type. -/
def planLink (arena : Arena) (type : ScalarType) (span : Interval) (entry : Interval × Nat) :
    Except TableFault Nat := do
  require (span.lower ≤ entry.1.lower ∧ entry.1.upper ≤ span.upper)
    (.invalidArgument (.splitChain span entry.1))
  let found ← arena.chainType entry.2
  require (found = type) (.typeMismatch (.append entry.1 found type))
  match arena.tail? entry.2 with
  | some tail => return tail
  | none => throw (.internal (.openChain entry.2))

def nextRowColumn (table : Table) : Nat :=
  match table.pending with
  | some pending => pending.nextCol
  | none => 0

def checkPendingRows (table : Table) (rows : Nat) : Except TableFault Unit :=
  match table.pending with
  | some pending => require (rows = pending.rows) (.dimensionMismatch pending.rows rows)
  | none => .ok ()

def linkRows (table : Table) (span : Interval) (block : Block) (tails : List Nat) : Table :=
  { table with
    -- the count of a machine as long as the table has fewer than `2 ^ 64` rows
    rows := if table.pending.isNone then table.rows + block.rows else table.rows
    arena :=
      (table.arena.addBlock block).linkAll ⟨table.arena.blocks.size, span.lower⟩ tails
    pending :=
      if span.upper + 1 < table.cols then
        some { nextCol := span.upper + 1, rows := block.rows }
      else
        none }

/-- Adds `rows` rows below the next `cols` columns that wait for them. A table without columns
takes the block as its first columns. -/
def appendRows (heap : Heap) (table : Table) (rows cols : Nat) (order : Order)
    (storage : Storage type) : Except (Refused Table) Table :=
  if table.isEmpty then
    table.appendColumns heap rows cols order storage
  else do
    refuse table (table.checkPendingRows rows)
    let span ← refuse table (Interval.ofSize table.nextRowColumn cols)
    refuse table (require (span.fits table.cols)
      (.invalidArgument (.wideRowBlock span table.cols)))
    let tails ← refuse table ((table.chains.range span).mapM (planLink table.arena type span))
    let dense ← refuse table (Dense.make heap rows cols order storage)
    return table.linkRows span ⟨type, dense⟩ tails

def insertChains (table : Table) :
    List (Interval × Nat) → Except (Refused Table) Table
  | [] => .ok table
  | entry :: later => do
    let chains ← within table.withChains
      (table.chains.insert (entry.1.shift table.cols) (entry.2 + table.arena.nodes.size))
    insertChains (table.withChains chains) later

/-- Moves every column of `other` to the right of the table; what remains of `other` is an empty
table. A label that is in use is lost. -/
def merge (table other : Table) : Except (Refused (Table × Table)) (Table × Table) := do
  refuse (table, other) table.checkComplete
  refuse (table, other) other.checkComplete
  if other.isEmpty then
    return (table, other)
  else
    refuse (table, other) (require (¬ table.isEmpty → table.rows = other.rows)
      (.dimensionMismatch table.rows other.rows))
    let mapped ← within (·, empty) (table.insertChains other.chains.entries)
    return ({ mapped with
      rows := other.rows
      cols := table.cols + other.cols
      arena := table.arena.append other.arena table.cols
      labels := Labels.enterUnused other.labels.names table.cols
        (table.labels.widen other.cols) }, empty)

end TypedTable.Table
