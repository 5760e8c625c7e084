import TypedTable.Csv.Settings
import TypedTable.Interval.Bounds

/-!
# Settings by name

Every option has a name under which its value is written and read as text. What is read from an
option is always something that may be written to it.
-/

set_option autoImplicit false

namespace TypedTable.Csv

inductive OptionName where
  | delimiter
  | thousands
  | decimal
  | comment
  | quoteChar
  | escapeChar
  | lineTerminator
  | exponentMarker
  | quoting
  | skippedLines
  | doubleQuote
  | blankDelimited
  | skippedFirstLines
  | skipEmptyLines
  | skipInitialSpace
  | skipTrailingSpace
  | expectedFields
  | badLines
  | skipFooter
  | warnForMissing
  | header
  | integersAsFloats
  | memoryMapped
  | chunkSize
  | loadType
  | precision
  | order
deriving DecidableEq, Repr

namespace OptionName

def text : OptionName → String
  | .delimiter => "delimiter"
  | .thousands => "thousands"
  | .decimal => "decimal"
  | .comment => "comment"
  | .quoteChar => "quote character"
  | .escapeChar => "escape character"
  | .lineTerminator => "line terminator"
  | .exponentMarker => "scientific notation character"
  | .quoting => "quoting"
  | .skippedLines => "skip rows"
  | .doubleQuote => "double quote"
  | .blankDelimited => "whitespace delimiter"
  | .skippedFirstLines => "skip first rows"
  | .skipEmptyLines => "skip empty lines"
  | .skipInitialSpace => "skip initial space"
  | .skipTrailingSpace => "skip trailing space"
  | .expectedFields => "expected fields"
  | .badLines => "bad lines"
  | .skipFooter => "skip footer"
  | .warnForMissing => "warn for missing data"
  | .header => "use header row"
  | .integersAsFloats => "integers as floats"
  | .memoryMapped => "use memory mapping"
  | .chunkSize => "chunk size"
  | .loadType => "datatype"
  | .precision => "datastore precision"
  | .order => "storage order"

def all : List OptionName :=
  [.delimiter, .thousands, .decimal, .comment, .quoteChar, .escapeChar, .lineTerminator,
    .exponentMarker, .quoting, .skippedLines, .doubleQuote, .blankDelimited, .skippedFirstLines,
    .skipEmptyLines, .skipInitialSpace, .skipTrailingSpace, .expectedFields, .badLines,
    .skipFooter, .warnForMissing, .header, .integersAsFloats, .memoryMapped, .chunkSize,
    .loadType, .precision, .order]

def ofText? (text : String) : Option OptionName := all.find? fun name => name.text == text

end OptionName

/-- Values that are written as one of a few words. A value's first word is the one it is read as. -/
abbrev Words (α : Type) := List (String × α)

namespace Words

def parse? {α : Type} (words : Words α) (text : String) : Option α := words.lookup text

def print {α : Type} [BEq α] (words : Words α) (value : α) : String :=
  ((words.find? fun word => word.2 == value).map (·.1)).getD ""

def flag : Words Bool := [("1", true), ("true", true), ("0", false), ("false", false)]

def quoting : Words Quoting :=
  [("minimal", .minimal), ("all", .all), ("nonnumeric", .nonNumeric), ("none", .none)]

def badLines : Words BadLinePolicy := [("error", .error), ("warn", .warn), ("skip", .skip)]

def loadType : Words LoadType :=
  [("integer", .fixed .int), ("float", .fixed .float), ("double", .fixed .double),
    ("boolean", .fixed .bool), ("char", .fixed .str), ("string", .fixed .str), ("auto", .auto)]

def precision : Words Precision := [("single", .single), ("float", .single), ("double", .double)]

def order : Words Order := [("row major", .rowMajor), ("column major", .columnMajor)]

end Words

namespace OptionText

def escaped? (letter : Char) : Option UInt8 :=
  if letter = 't' then some 9
  else if letter = 'n' then some 10
  else if letter = 'r' then some 13
  else none

/-- A byte is written as itself, or as an escape if it is a tab, a line feed or a carriage return;
an empty text stands for no byte. Only ASCII bytes can be written. -/
def parseByte? (text : String) : Option (Option UInt8) :=
  match text.toList with
  | [] => some none
  | [c] => if c.toNat < 128 then some (some (UInt8.ofNat c.toNat)) else none
  | [mark, letter] => if mark = '\\' then (escaped? letter).map some else none
  | _ => none

def printByte (byte : UInt8) : String :=
  if byte = 9 then "\\t"
  else if byte = 10 then "\\n"
  else if byte = 13 then "\\r"
  else String.ofList [Char.ofNat byte.toNat]

def printOptionalByte (byte : Option UInt8) : String := (byte.map printByte).getD ""

def isDigit (c : Char) : Bool := 48 ≤ c.toNat && c.toNat ≤ 57

def dropPlus : List Char → List Char
  | '+' :: rest => rest
  | text => text

def numberOf? (text : List Char) : Option Nat :=
  let digits := dropPlus text
  if digits.isEmpty || !digits.all isDigit then
    none
  else
    let number := Numeral.ofDigits (digits.map fun c => c.toNat - 48)
    if number < wordLimit then some number else none

def parseNumber? (text : String) : Option Nat := numberOf? (Text.trimWhiteSpace text.toList)

def pieces : List Char → List (List Char)
  | [] => []
  | c :: rest =>
    if c = ',' ∨ c = ' ' then
      pieces rest
    else
      match rest, pieces rest with
      | [], _ => [[c]]
      | next :: _, found =>
        if next = ',' ∨ next = ' ' then
          [c] :: found
        else
          match found with
          | [] => [[c]]
          | first :: later => (c :: first) :: later

def parseLine (piece : List Char) : Except OptionFault Nat :=
  match numberOf? (Text.trimWhiteSpace piece) with
  | some number => .ok number
  | none => .error (.badValue OptionName.skippedLines.text (String.ofList piece))

def parseLines (text : String) : Except OptionFault LineSet := do
  return LineSet.ofList (← (pieces text.toList).mapM parseLine)

def printLines (lines : LineSet) : String := ",".intercalate (lines.lines.map Nat.repr)

def parseCount? (text : String) : Option (Option Nat) :=
  if text = "" then some none else (parseNumber? text).map some

def printCount (count : Option Nat) : String := (count.map Nat.repr).getD ""

end OptionText

structure Declined where
  fault : OptionFault
  left : Settings

namespace Settings

open OptionText

def onDialect (s : Settings) (change : Dialect → Dialect) : Settings :=
  { s with dialect := change s.dialect }

def orDecline {α : Type} (s : Settings) (result : Except OptionFault α) : Except Declined α :=
  result.mapError (⟨·, s⟩)

def accept {α : Type} (s : Settings) (name : OptionName) (text : String) (value : Option α)
    (change : α → Settings) : Except Declined Settings :=
  match value with
  | some value => .ok (change value)
  | none => .error ⟨.badValue name.text text, s⟩

def write (s : Settings) (name : OptionName) (text : String) : Except Declined Settings :=
  match name with
  | .delimiter => s.accept name text (parseByte? text).join fun byte =>
    s.onDialect ({ · with delimiter := byte })
  | .thousands => s.accept name text (parseByte? text) fun byte =>
    s.onDialect ({ · with thousands := byte })
  | .decimal => s.accept name text (parseByte? text).join fun byte =>
    s.onDialect ({ · with decimal := byte })
  | .comment => s.accept name text (parseByte? text) fun byte =>
    s.onDialect ({ · with commentChar := byte })
  | .quoteChar => s.accept name text (parseByte? text).join fun byte =>
    s.onDialect ({ · with quoteChar := byte })
  | .escapeChar => s.accept name text (parseByte? text) fun byte =>
    s.onDialect ({ · with escapeChar := byte })
  | .lineTerminator => s.accept name text (parseByte? text) fun byte =>
    s.onDialect ({ · with lineTerminator := byte })
  | .exponentMarker => s.accept name text (parseByte? text).join fun byte =>
    s.onDialect ({ · with exponentMarker := Numeral.toLower byte })
  | .quoting => s.accept name text (Words.quoting.parse? text) fun value =>
    s.onDialect ({ · with quoting := value })
  | .skippedLines => do
    let lines ← s.orDecline (parseLines text)
    return s.onDialect ({ · with skippedLines := lines })
  | .doubleQuote => s.accept name text (Words.flag.parse? text) fun value =>
    s.onDialect ({ · with doubleQuote := value })
  | .blankDelimited => s.accept name text (Words.flag.parse? text) fun value =>
    s.onDialect ({ · with blankDelimited := value })
  | .skippedFirstLines => s.accept name text (parseNumber? text) fun count =>
    s.onDialect ({ · with skippedFirstLines := count })
  | .skipEmptyLines => s.accept name text (Words.flag.parse? text) fun value =>
    s.onDialect ({ · with skipEmptyLines := value })
  | .skipInitialSpace => s.accept name text (Words.flag.parse? text) fun value =>
    s.onDialect ({ · with skipInitialSpace := value })
  | .skipTrailingSpace => s.accept name text (Words.flag.parse? text) fun value =>
    s.onDialect ({ · with skipTrailingSpace := value })
  | .expectedFields => s.accept name text (parseCount? text) fun count =>
    s.onDialect ({ · with expectedFields := count })
  | .badLines => s.accept name text (Words.badLines.parse? text) fun value =>
    s.onDialect ({ · with onBadLines := value })
  | .skipFooter => s.accept name text (Words.flag.parse? text) fun value =>
    { s with skipFooter := value }
  | .warnForMissing => s.accept name text (Words.flag.parse? text) fun value =>
    { s with warnForMissing := value }
  | .header => s.accept name text (Words.flag.parse? text) fun value => { s with header := value }
  | .integersAsFloats => s.accept name text (Words.flag.parse? text) fun value =>
    { s with integersAsFloats := value }
  | .memoryMapped => s.accept name text (Words.flag.parse? text) fun value =>
    { s with memoryMapped := value }
  | .chunkSize => s.accept name text (parseNumber? text) fun count => { s with chunkSize := count }
  | .loadType => s.accept name text (Words.loadType.parse? text) fun value =>
    { s with loadType := value }
  | .precision => s.accept name text (Words.precision.parse? text) fun value =>
    { s with precision := value }
  | .order => s.accept name text (Words.order.parse? text) fun value => { s with order := value }

def read (s : Settings) (name : OptionName) : String :=
  match name with
  | .delimiter => printByte s.dialect.delimiter
  | .thousands => printOptionalByte s.dialect.thousands
  | .decimal => printByte s.dialect.decimal
  | .comment => printOptionalByte s.dialect.commentChar
  | .quoteChar => printByte s.dialect.quoteChar
  | .escapeChar => printOptionalByte s.dialect.escapeChar
  | .lineTerminator => printOptionalByte s.dialect.lineTerminator
  | .exponentMarker => printByte s.dialect.exponentMarker
  | .quoting => Words.quoting.print s.dialect.quoting
  | .skippedLines => printLines s.dialect.skippedLines
  | .doubleQuote => Words.flag.print s.dialect.doubleQuote
  | .blankDelimited => Words.flag.print s.dialect.blankDelimited
  | .skippedFirstLines => Nat.repr s.dialect.skippedFirstLines
  | .skipEmptyLines => Words.flag.print s.dialect.skipEmptyLines
  | .skipInitialSpace => Words.flag.print s.dialect.skipInitialSpace
  | .skipTrailingSpace => Words.flag.print s.dialect.skipTrailingSpace
  | .expectedFields => printCount s.dialect.expectedFields
  | .badLines => Words.badLines.print s.dialect.onBadLines
  | .skipFooter => Words.flag.print s.skipFooter
  | .warnForMissing => Words.flag.print s.warnForMissing
  | .header => Words.flag.print s.header
  | .integersAsFloats => Words.flag.print s.integersAsFloats
  | .memoryMapped => Words.flag.print s.memoryMapped
  | .chunkSize => Nat.repr s.chunkSize
  | .loadType => Words.loadType.print s.loadType
  | .precision => Words.precision.print s.precision
  | .order => Words.order.print s.order

def nameOf (text : String) : Except OptionFault OptionName :=
  match OptionName.ofText? text with
  | some name => .ok name
  | none => .error (.unknownName text)

def set (s : Settings) (name text : String) : Except Declined Settings := do
  s.write (← s.orDecline (nameOf name)) text

def get (s : Settings) (name : String) : Except OptionFault String := do
  return s.read (← nameOf name)

end Settings

end TypedTable.Csv
