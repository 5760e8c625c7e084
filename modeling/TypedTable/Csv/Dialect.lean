import TypedTable.Numeral.Decimal

/-!
# Dialects

A dialect says which bytes delimit, quote, escape and end what, which lines do not count, and how
numbers are written. Special bytes may coincide; every reader of a dialect has its own order of
tests.
-/

set_option autoImplicit false

namespace TypedTable.Csv

inductive Quoting where
  | minimal
  | all
  | nonNumeric
  | none
deriving DecidableEq, Repr

/-- What happens to a line with too many fields. -/
inductive BadLinePolicy where
  | error
  | warn
  | skip
deriving DecidableEq, Repr

/-- A set of line numbers, kept in increasing order. -/
structure LineSet where
  lines : List Nat := []
deriving DecidableEq, Repr

namespace LineSet

def insertInto (line : Nat) : List Nat → List Nat
  | [] => [line]
  | head :: rest =>
    if line < head then line :: head :: rest
    else if line = head then head :: rest
    else head :: insertInto line rest

def insert (set : LineSet) (line : Nat) : LineSet := ⟨insertInto line set.lines⟩

def ofList (lines : List Nat) : LineSet := lines.foldl insert {}

def contains (set : LineSet) (line : Nat) : Bool := set.lines.contains line

end LineSet

structure Dialect where
  delimiter : UInt8 := 44
  /-- Any run of spaces and tabs is one delimiter. -/
  blankDelimited : Bool := false
  quoteChar : UInt8 := 34
  quoting : Quoting := .minimal
  /-- Two quotes inside a quoted field stand for one. -/
  doubleQuote : Bool := true
  escapeChar : Option UInt8 := none
  /-- Without one, a line ends in a line feed, a carriage return or both. -/
  lineTerminator : Option UInt8 := none
  commentChar : Option UInt8 := some 35
  decimal : UInt8 := 46
  exponentMarker : UInt8 := 101
  thousands : Option UInt8 := none
  skipInitialSpace : Bool := false
  skipTrailingSpace : Bool := true
  skipEmptyLines : Bool := false
  skippedLines : LineSet := {}
  skippedFirstLines : Nat := 0
  expectedFields : Option Nat := none
  onBadLines : BadLinePolicy := .error
  intMin : Int64 := Int64.minValue
  intMax : Int64 := Int64.maxValue
  uintMax : UInt64 := 0xffffffffffffffff
deriving DecidableEq

namespace Dialect

def isTerminator (d : Dialect) (byte : UInt8) : Bool := byte == d.lineTerminator.getD 10

def isReturn (d : Dialect) (byte : UInt8) : Bool := d.lineTerminator.isNone && byte == 13

def isSpaceOrTab (byte : UInt8) : Bool := byte == 32 || byte == 9

def isDelimiter (d : Dialect) (byte : UInt8) : Bool :=
  if d.blankDelimited then isSpaceOrTab byte else byte == d.delimiter

def isQuote (d : Dialect) (byte : UInt8) : Bool :=
  d.quoting != .none && byte == d.quoteChar

def isEscape (d : Dialect) (byte : UInt8) : Bool := d.escapeChar == some byte

def isComment (d : Dialect) (byte : UInt8) : Bool := d.commentChar == some byte

def isInitialSpace (d : Dialect) (byte : UInt8) : Bool :=
  !d.blankDelimited && byte == 32 && d.skipInitialSpace

/-- Whether the settings exclude the physical line with this number, counted from zero. -/
def skipsLine (d : Dialect) (line : Nat) : Bool :=
  decide (line < d.skippedFirstLines) || d.skippedLines.contains line

def decimalMarks (d : Dialect) : Numeral.DecimalMarks :=
  { point := d.decimal
    exponent := d.exponentMarker
    separator := d.thousands
    blanksMayFollow := d.skipTrailingSpace }

end Dialect

end TypedTable.Csv
