import TypedTable.Interval.Basic
import TypedTable.Scalar

/-!
# Faults of table operations

A refused operation answers with its cause. The wording of every cause is in `message`, its
category in `kind`; no other module builds such text.
-/

set_option autoImplicit false

namespace TypedTable

inductive FaultKind where
  | parsing
  | overflow
  | memory
  | invalidInput
  | missingBlock
  | fileNotFound
  | io
  | internal
deriving DecidableEq, Repr

def FaultKind.text : FaultKind → String
  | .parsing => "parsing error"
  | .overflow => "overflow"
  | .memory => "memory error"
  | .invalidInput => "invalid input"
  | .missingBlock => "missing block"
  | .fileNotFound => "file not found"
  | .io => "I/O error"
  | .internal => "internal error"

inductive Dimension where
  | rows
  | columns
deriving DecidableEq, Repr

def Dimension.text : Dimension → String
  | .rows => "rows"
  | .columns => "columns"

inductive ArgumentFault where
  | stated (text : String)
  | invertedInterval (lower upper : Nat)
  | emptyInterval
  | overlap (range : Interval)
  | shortInput (found needed : Nat)
  | emptyBlock (rows cols : Nat)
  | narrowCopy (lead rows : Nat)
  | narrowExtract (lead rows : Nat)
  | narrowSelection (lead needed : Nat)
  | shortOutput (size needed : Nat)
  | shortMask (size needed : Nat)
  | wideRowBlock (range : Interval) (cols : Nat)
  | splitChain (range chain : Interval)
  | unknownLabel (name : String)
  | unknownSelection (key : String)
  | noRows
  | noColumns
  | tableInUse
deriving DecidableEq, Repr

def ArgumentFault.message : ArgumentFault → String
  | .stated text => text
  | .invertedInterval lower upper => s!"inverted interval [{lower}, {upper}]"
  | .emptyInterval => "empty interval"
  | .overlap range => s!"interval {range.text} overlaps an existing entry"
  | .shortInput found needed => s!"buffer holds {found} elements, block needs {needed}"
  | .emptyBlock rows cols => s!"block dimensions must be positive, got {rows} x {cols}"
  | .narrowCopy lead rows => s!"leading dimension {lead} is smaller than the {rows} rows copied"
  | .narrowExtract lead rows =>
    s!"leading dimension {lead} is smaller than the {rows} rows extracted"
  | .narrowSelection lead needed => s!"leading dimension {lead} is smaller than {needed}"
  | .shortOutput size needed => s!"output buffer holds {size} elements, {needed} needed"
  | .shortMask size needed => s!"validity mask holds {size} rows, {needed} needed"
  | .wideRowBlock range cols =>
    s!"row block over columns {range.text} exceeds the {cols} columns of the table"
  | .splitChain range chain =>
    s!"row block over columns {range.text} would split the column block {chain.text}"
  | .unknownLabel name => s!"no column labeled '{name}'"
  | .unknownSelection key => s!"unknown selection '{key}'"
  | .noRows => "the table has no rows"
  | .noColumns => "the table has no columns"
  | .tableInUse => "CSV data can only be loaded into an empty data store"

inductive TypeClash where
  | stated (text : String)
  | block (found requested : ScalarType)
  | extract (columns : Interval) (found requested : ScalarType)
  | append (columns : Interval) (found supplied : ScalarType)
deriving DecidableEq, Repr

def TypeClash.message : TypeClash → String
  | .stated text => text
  | .block found requested => s!"block holds {found.text}, requested {requested.text}"
  | .extract columns found requested =>
    s!"columns {columns.text} hold {found.text}, requested {requested.text}"
  | .append columns found supplied =>
    s!"columns {columns.text} hold {found.text}, row block holds {supplied.text}"

inductive SizeFault where
  | stated (text : String)
  | interval (start size : Nat)
  | block (rows cols : Nat)
deriving DecidableEq, Repr

def SizeFault.message : SizeFault → String
  | .stated text => text
  | .interval start size => s!"interval starting at {start} with {size} indices"
  | .block rows cols => s!"block of {rows} x {cols} elements"

inductive BrokenInvariant where
  | stated (text : String)
  | unmappedColumn (col : Nat)
  | danglingNode (node : Nat)
  | danglingBlock (block : Nat)
  | openChain (head : Nat)
  | uncoveredRow (row col : Nat)
  | cellOutsideStorage (offset : Nat)
deriving DecidableEq, Repr

def BrokenInvariant.message : BrokenInvariant → String
  | .stated text => text
  | .unmappedColumn col => s!"column {col} is not in the column map"
  | .danglingNode node => s!"dangling chain node {node}"
  | .danglingBlock block => s!"dangling block {block}"
  | .openChain head => s!"chain {head} has no tail"
  | .uncoveredRow row col => s!"row {row} of column {col} is not covered by its chain"
  | .cellOutsideStorage offset => s!"cell {offset} is outside the storage of its block"

inductive TableFault where
  | invalidArgument (reason : ArgumentFault)
  | indexOutOfBounds (index : Nat) (dimension : Dimension) (size : Nat)
  | dimensionMismatch (expected found : Nat)
  | typeMismatch (clash : TypeClash)
  | missingBlock (pending : Nat)
  | overflow (what : SizeFault)
  | memoryExhausted (what : String)
  | internal (broken : BrokenInvariant)
deriving DecidableEq, Repr

namespace TableFault

def kind : TableFault → FaultKind
  | .invalidArgument _ | .indexOutOfBounds .. | .dimensionMismatch .. | .typeMismatch _ =>
    .invalidInput
  | .missingBlock _ => .missingBlock
  | .overflow _ => .overflow
  | .memoryExhausted _ => .memory
  | .internal _ => .internal

def message : TableFault → String
  | .invalidArgument reason => s!"Invalid argument: {reason.message}"
  | .indexOutOfBounds index dimension size =>
    s!"Index {index} out of bounds for {dimension.text} of length {size}"
  | .dimensionMismatch expected found =>
    s!"Dimension mismatch: expected {expected} rows, got {found}"
  | .typeMismatch clash => s!"Data type mismatch: {clash.message}"
  | .missingBlock pending =>
    "Missing block: rows were only partially added, " ++
      s!"columns {pending} onwards still need data"
  | .overflow what => s!"Overflow: {what.message}"
  | .memoryExhausted what => s!"Memory allocation failed: {what}"
  | .internal broken => s!"Internal error: {broken.message}"

end TableFault

def require (condition : Prop) [Decidable condition] (fault : TableFault) :
    Except TableFault Unit :=
  if condition then .ok () else .error fault

/-- A refused operation together with the state it left. -/
structure Refused (σ : Type) where
  fault : TableFault
  left : σ
deriving DecidableEq, Repr

def refuse {σ α : Type} (left : σ) (result : Except TableFault α) : Except (Refused σ) α :=
  result.mapError fun fault => ⟨fault, left⟩

/-- The result of a step that changes a part of the state: `whole` is the state around what it
leaves of the part. -/
def within {σ τ α : Type} (whole : σ → τ) (result : Except (Refused σ) α) :
    Except (Refused τ) α :=
  result.mapError fun refused => ⟨refused.fault, whole refused.left⟩

inductive Status where
  | success
  | noData
  | missingData
  | badLines
  | fullExtraction
  | unknownSelection
deriving DecidableEq, Repr

def Status.isWarning (status : Status) : Bool := decide (status ≠ .success)

end TypedTable
