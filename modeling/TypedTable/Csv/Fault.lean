import TypedTable.Fault
import TypedTable.Numeral.Scaling

/-!
# Faults of reading

As with tables, a fault is the cause of a failure and its wording is in `message`.
-/

set_option autoImplicit false

namespace TypedTable.Csv

/-- Why a field is no value of the requested type; `type` is that type's name. -/
inductive FieldFault where
  | noDigits
  | outOfRange (type : String)
  | infinite (negative : Bool)
  | trailing
  | minusSign
  | notTruth
deriving DecidableEq, Repr

namespace FieldFault

def kind : FieldFault → FaultKind
  | .outOfRange _ => .overflow
  | _ => .parsing

def message : FieldFault → String
  | .noDigits => "no digits found"
  | .outOfRange type => s!"value out of range for {type}"
  | .infinite true => "exponent out of range, value saturates to -inf"
  | .infinite false => "exponent out of range, value saturates to inf"
  | .trailing => "unexpected characters after the value"
  | .minusSign => "negative value for an unsigned type"
  | .notTruth => "not a boolean"

end FieldFault

inductive LineFault where
  | stated (text : String)
  | tooManyFields (line expected seen : Nat)
  | openQuote (line : Nat)
  | openEscape
deriving DecidableEq, Repr

def LineFault.message : LineFault → String
  | .stated text => text
  | .tooManyFields line expected seen => s!"Expected {expected} fields in line {line}, saw {seen}"
  | .openQuote line => s!"EOF inside string starting at row {line}"
  | .openEscape => "EOF following escape character"

inductive CountFault where
  | stated (text : String)
  | fieldCount
  | fieldTable
deriving DecidableEq, Repr

def CountFault.message : CountFault → String
  | .stated text => text
  | .fieldCount => "words length exceeds usize"
  | .fieldTable => "words capacity exceeds usize"

inductive MemoryFault where
  | stated (text : String)
  | fieldTable (entries : Nat)
deriving DecidableEq, Repr

def MemoryFault.message : MemoryFault → String
  | .stated text => text
  | .fieldTable entries =>
    s!"growing words to {entries} entries: memory allocation failed because the computed " ++
      "capacity exceeded the collection's maximum"

inductive SpecialByte where
  | quote
  | terminator
  | comment
  | escape
deriving DecidableEq, Repr

def SpecialByte.text : SpecialByte → String
  | .quote => "quote character"
  | .terminator => "line terminator"
  | .comment => "comment character"
  | .escape => "escape character"

inductive OptionFault where
  | stated (text : String)
  | badValue (name value : String)
  | unknownName (name : String)
  | delimiterClash (role : SpecialByte)
  | separatorClash
  | digitSeparator
  | integerBounds (min max : Int64)
  | emptyChunks
  | emptyProjection
  | repeatedProjection
deriving DecidableEq, Repr

def OptionFault.message : OptionFault → String
  | .stated text => text
  | .badValue name value => s!"'{value}' is not a valid value for '{name}'"
  | .unknownName name => s!"unknown option '{name}'"
  | .delimiterClash role => s!"delimiter and {role.text} are the same"
  | .separatorClash => "decimal point and thousands separator are the same"
  | .digitSeparator => "numeric separators cannot be digits"
  | .integerBounds min max => s!"integer bounds [{min}, {max}] must contain zero"
  | .emptyChunks => "chunk size must be positive"
  | .emptyProjection => "column projection is empty"
  | .repeatedProjection => "column projection repeats a column"

inductive ReadFault where
  | table (fault : TableFault)
  | io (text : String)
  | fileNotFound (path : String)
  | readFailed (text : String)
  | malformed (fault : LineFault)
  | ragged (line fields expected : Nat)
  | field (line entry : Nat) (fault : FieldFault)
  | overflow (what : CountFault)
  | memoryExhausted (what : MemoryFault)
  | option (fault : OptionFault)
deriving DecidableEq, Repr

namespace ReadFault

def kind : ReadFault → FaultKind
  | .table fault => fault.kind
  | .io _ | .readFailed _ => .io
  | .fileNotFound _ => .fileNotFound
  | .malformed _ | .ragged .. => .parsing
  | .field _ _ fault => fault.kind
  | .overflow _ => .overflow
  | .memoryExhausted _ => .memory
  | .option _ => .invalidInput

def message : ReadFault → String
  | .table fault => s!"Core error: {fault.message}"
  | .io text => s!"I/O error: {text}"
  | .fileNotFound path => s!"File not found: {path}"
  | .readFailed text => s!"Reading from the byte source failed: {text}"
  | .malformed fault => s!"Parsing error: {fault.message}"
  | .ragged line fields expected =>
    s!"Line {line} had an unexpected number of fields (fields {fields}, expected {expected})"
  | .field line entry fault =>
    s!"Unable to parse entry on line {line} entry {entry}: {fault.message}"
  | .overflow what => s!"Overflow: {what.message}"
  | .memoryExhausted what => s!"Memory allocation failed: {what.message}"
  | .option fault => s!"Invalid option: {fault.message}"

end ReadFault

end TypedTable.Csv
