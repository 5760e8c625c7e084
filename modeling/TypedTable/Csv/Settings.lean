import TypedTable.Csv.Dialect
import TypedTable.Csv.Fault

/-!
# Settings of a read

A dialect together with what is done with the lines: which of them are data, which columns are
taken, and which type and storage order the result has.
-/

set_option autoImplicit false

namespace TypedTable.Csv

inductive Precision where
  | single
  | double
deriving DecidableEq, Repr

/-- The type of the columns of a load: one for all, or one found for each. -/
inductive LoadType where
  | fixed (type : ScalarType)
  | auto
deriving DecidableEq, Repr

structure Settings where
  dialect : Dialect := {}
  /-- The first line holds the headings of the columns. -/
  header : Bool := false
  /-- The last line is not data. -/
  skipFooter : Bool := false
  /-- An entry that cannot be converted counts as missing. -/
  warnForMissing : Bool := false
  loadType : LoadType := .fixed .double
  integersAsFloats : Bool := false
  precision : Precision := .double
  order : Order := .rowMajor
  columns : Option (List Nat) := none
  chunkSize : Nat := 262144
  memoryMapped : Bool := false
deriving DecidableEq

namespace Dialect

def delimiterRoles (d : Dialect) : List SpecialByte :=
  ([(.quote, if d.quoting = .none then none else some d.quoteChar),
    (.terminator, d.lineTerminator),
    (.comment, d.commentChar),
    (.escape, d.escapeChar)] : List (SpecialByte × Option UInt8)).filterMap fun role =>
      if role.2 = some d.delimiter then some role.1 else none

def validate (d : Dialect) : Except OptionFault Unit := do
  if !d.blankDelimited then
    if let role :: _ := d.delimiterRoles then
      throw (.delimiterClash role)
  if d.thousands = some d.decimal then
    throw .separatorClash
  if Numeral.isDigit d.decimal || d.thousands.any Numeral.isDigit then
    throw .digitSeparator
  if 0 < d.intMin.toInt ∨ d.intMax.toInt < 0 then
    throw (.integerBounds d.intMin d.intMax)

end Dialect

namespace Settings

def checkColumns : Option (List Nat) → Except OptionFault Unit
  | none => .ok ()
  | some columns =>
    if columns.isEmpty then .error .emptyProjection
    else if decide columns.Nodup then .ok ()
    else .error .repeatedProjection

def validate (s : Settings) : Except OptionFault Unit := do
  s.dialect.validate
  if s.chunkSize = 0 then
    throw .emptyChunks
  checkColumns s.columns

end Settings

end TypedTable.Csv
