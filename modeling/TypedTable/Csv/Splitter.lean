import TypedTable.Csv.Dialect
import TypedTable.Csv.Fault
import TypedTable.Csv.FieldStream

/-!
# Splitting bytes into lines of fields

The splitter reads one byte at a time. A byte after a carriage return first settles whether it is
part of the line ending; any other byte is read in one state, which may leave it to a second one.
Lines that are skipped or dropped leave no field behind.
-/

set_option autoImplicit false

namespace TypedTable.Csv

/-- A committed line: its first field, its number of fields, and its number in the input. -/
structure Line where
  start : Nat
  fields : Nat
  number : Nat
deriving DecidableEq, Repr

/-- A line was dropped because it had too many fields. -/
structure Warning where
  line : Nat
  expected : Nat
  seen : Nat
deriving DecidableEq, Repr

def Warning.text (w : Warning) : String :=
  s!"Skipping line {w.line}: expected {w.expected} fields, saw {w.seen}"

inductive SplitState where
  | lineStart
  | fieldStart
  | inField
  | escaped
  | inQuotes
  | escapedInQuotes
  /-- After a quote that closes the field, or is the first of two. -/
  | afterQuote
  /-- After a carriage return that ends the line under construction. -/
  | afterReturn
  /-- After a carriage return of a line that is counted already. -/
  | afterIgnoredReturn
  | betweenFields
  | inTrailingComment
  | inCommentLine
  /-- In a line that has had only blanks so far. -/
  | inBlanks
  | skippedFieldStart
  | inSkippedField
  | inSkippedQuotes
  | afterSkippedQuote
  | finished
deriving DecidableEq, Repr

def SplitState.isSkipping : SplitState → Bool
  | .skippedFieldStart | .inSkippedField | .inSkippedQuotes | .afterSkippedQuote => true
  | _ => false

structure Splitter where
  /-- The first lines are headings, whatever their number of fields. -/
  headerLines : Nat := 0
  /-- Lines may have any number of fields. -/
  anyWidth : Bool := false
  stream : FieldStream := {}
  lines : Array Line := #[]
  lineStart : Nat := 0
  /-- Finished fields of the line under construction. -/
  openFields : Nat := 0
  /-- Physical lines so far, also those without a committed line. -/
  fileLines : Nat := 0
  state : SplitState := .lineStart
  /-- Blanks that are part of a field if the line turns out to have content. -/
  heldBlanks : Array UInt8 := #[]
  warnings : Array Warning := #[]
deriving DecidableEq, Repr

structure Halted (σ : Type) where
  fault : ReadFault
  left : σ
deriving DecidableEq, Repr

namespace Splitter

def isFinished (s : Splitter) : Bool := s.state == .finished

def reached (s : Splitter) : Option Nat → Bool
  | some limit => decide (limit ≤ s.lines.size)
  | none => false

def fields (s : Splitter) (line : Line) : List (List UInt8) :=
  (List.range' line.start line.fields).map s.stream.field

def enter (s : Splitter) (state : SplitState) : Splitter := { s with state := state }

def push (s : Splitter) (byte : UInt8) : Splitter := { s with stream := s.stream.push byte }

def closeField (s : Splitter) : Splitter :=
  { s with stream := s.stream.close, openFields := s.openFields + 1 }

def closeFields (s : Splitter) : Nat → Splitter
  | 0 => s
  | count + 1 => closeFields s.closeField count

def countLine (s : Splitter) : Splitter := { s with fileLines := s.fileLines + 1 }

def discardLine (s : Splitter) : Splitter :=
  { s with stream := s.stream.dropLast s.openFields, openFields := 0 }

def commitLine (s : Splitter) : Splitter :=
  { s with
    lines := s.lines.push
      { start := s.lineStart, fields := s.openFields, number := s.fileLines + 1 }
    lineStart := s.lineStart + s.openFields
    openFields := 0
    fileLines := s.fileLines + 1 }

/-- The number of fields that the line under construction has to have, if any. Without a setting it
is that of the line before. -/
def requiredFields (d : Dialect) (s : Splitter) : Option Nat :=
  if s.headerLines ≤ s.lines.size ∧ s.anyWidth = false then
    d.expectedFields <|> (s.lines.back?.map (·.fields))
  else
    none

def rejectLine (d : Dialect) (s : Splitter) (expected : Nat) :
    Except (Halted Splitter) Splitter :=
  let left := s.countLine.discardLine
  match d.onBadLines with
  | .error => .error ⟨.malformed (.tooManyFields left.fileLines expected s.openFields), left⟩
  | .warn =>
    .ok { left with
      warnings := left.warnings.push ⟨left.fileLines, expected, s.openFields⟩ }
  | .skip => .ok left

def padLine (s : Splitter) (missing : Nat) : Except (Halted Splitter) Splitter :=
  if missing = 0 then
    .ok s
  else
    match s.stream.checkRoom missing with
    | .ok () => .ok (s.closeFields missing)
    | .error fault => .error ⟨fault, s⟩

/-- Ends the line under construction: a skipped one is discarded, a short one padded with empty
fields, and one with too many fields treated as the dialect says. -/
def endLine (d : Dialect) (s : Splitter) : Except (Halted Splitter) Splitter :=
  if s.state.isSkipping then
    .ok s.countLine.discardLine
  else
    match s.requiredFields d with
    | some expected =>
      if expected < s.openFields then s.rejectLine d expected
      else return (← s.padLine (expected - s.openFields)).commitLine
    | none => .ok s.commitLine

def endLineTo (d : Dialect) (state : SplitState) (s : Splitter) :
    Except (Halted Splitter) Splitter := do
  return (← s.endLine d).enter state

def afterDelimiter (d : Dialect) : SplitState :=
  if d.blankDelimited then .betweenFields else .fieldStart

def readAtFieldStart (d : Dialect) (c : UInt8) (s : Splitter) :
    Except (Halted Splitter) Splitter :=
  if d.isTerminator c then s.closeField.endLineTo d .lineStart
  else if d.isReturn c then .ok (s.closeField.enter .afterReturn)
  else if d.isQuote c then .ok (s.enter .inQuotes)
  else if d.isEscape c then .ok (s.enter .escaped)
  else if d.isInitialSpace c then .ok s
  else if d.isDelimiter c then
    .ok (if d.blankDelimited then s.enter .betweenFields else s.closeField)
  else if d.isComment c then .ok (s.closeField.enter .inTrailingComment)
  else .ok ((s.push c).enter .inField)

def readInField (d : Dialect) (c : UInt8) (s : Splitter) : Except (Halted Splitter) Splitter :=
  if d.isTerminator c then s.closeField.endLineTo d .lineStart
  else if d.isReturn c then .ok (s.closeField.enter .afterReturn)
  else if d.isEscape c then .ok (s.enter .escaped)
  else if d.isDelimiter c then .ok (s.closeField.enter (afterDelimiter d))
  else if d.isComment c then .ok (s.closeField.enter .inTrailingComment)
  else .ok (s.push c)

def readInQuotes (d : Dialect) (c : UInt8) (s : Splitter) : Splitter :=
  if d.isEscape c then s.enter .escapedInQuotes
  else if d.isQuote c then s.enter (if d.doubleQuote then .afterQuote else .inField)
  else s.push c

def readAfterQuote (d : Dialect) (c : UInt8) (s : Splitter) :
    Except (Halted Splitter) Splitter :=
  if d.isQuote c then .ok ((s.push c).enter .inQuotes)
  else if d.isDelimiter c then .ok (s.closeField.enter (afterDelimiter d))
  else if d.isTerminator c then s.closeField.endLineTo d .lineStart
  else if d.isReturn c then .ok (s.closeField.enter .afterReturn)
  else .ok ((s.push c).enter .inField)

def readBetweenFields (d : Dialect) (c : UInt8) (s : Splitter) :
    Except (Halted Splitter) Splitter :=
  if d.isTerminator c then s.endLineTo d .lineStart
  else if d.isReturn c then .ok (s.enter .afterReturn)
  else if d.isComment c then .ok (s.enter .inTrailingComment)
  else if Dialect.isSpaceOrTab c then .ok s
  else (s.enter .fieldStart).readAtFieldStart d c

def readInTrailingComment (d : Dialect) (c : UInt8) (s : Splitter) :
    Except (Halted Splitter) Splitter :=
  if d.isTerminator c then s.endLineTo d .lineStart
  else if d.isReturn c then .ok (s.enter .afterReturn)
  else .ok s

def readInCommentLine (d : Dialect) (c : UInt8) (s : Splitter) : Splitter :=
  if d.isTerminator c then s.countLine.enter .lineStart
  else if d.isReturn c then s.countLine.enter .afterIgnoredReturn
  else s

/-- Puts the held blanks into the first field, which begins after the spaces that do not count. -/
def releaseBlanks (d : Dialect) (s : Splitter) : Splitter :=
  let held := s.heldBlanks.toList
  let kept := if d.skipInitialSpace then held.dropWhile (· == 32) else held
  let s := kept.foldl push { s with heldBlanks := #[] }
  s.enter (if kept.isEmpty then .fieldStart else .inField)

def readInBlanks (d : Dialect) (c : UInt8) (s : Splitter) : Except (Halted Splitter) Splitter :=
  if d.isTerminator c then .ok ({ s.countLine with heldBlanks := #[] }.enter .lineStart)
  else if d.isReturn c then .ok ({ s.countLine with heldBlanks := #[] }.enter .afterIgnoredReturn)
  else if d.blankDelimited then
    if d.isComment c then .ok (s.enter .inTrailingComment)
    else if Dialect.isSpaceOrTab c then .ok s
    else (s.enter .fieldStart).readAtFieldStart d c
  else if Dialect.isSpaceOrTab c ∧ c ≠ d.delimiter then
    .ok { s with heldBlanks := s.heldBlanks.push c }
  else
    let s := s.releaseBlanks d
    if s.state = .inField then s.readInField d c else s.readAtFieldStart d c

/-- The first byte of a skipped line. A carriage return is no line ending here. -/
def readAtSkippedLine (d : Dialect) (c : UInt8) (s : Splitter) :
    Except (Halted Splitter) Splitter :=
  if d.isQuote c then .ok (s.enter .inSkippedQuotes)
  else if d.isTerminator c then (s.enter .inSkippedField).endLineTo d .lineStart
  else .ok (s.enter .inSkippedField)

def readAtLineStart (d : Dialect) (c : UInt8) (s : Splitter) :
    Except (Halted Splitter) Splitter :=
  if d.skipsLine s.fileLines then s.readAtSkippedLine d c
  else if d.isTerminator c then
    if d.skipEmptyLines then .ok s.countLine else s.endLineTo d .lineStart
  else if d.isReturn c then
    .ok (if d.skipEmptyLines then s.countLine.enter .afterIgnoredReturn
      else s.enter .afterReturn)
  else if d.isComment c then .ok (s.enter .inCommentLine)
  else if Dialect.isSpaceOrTab c then
    if d.blankDelimited then
      .ok (s.enter (if d.skipEmptyLines then .inBlanks else .betweenFields))
    else if c ≠ d.delimiter ∧ d.skipEmptyLines then
      .ok ({ s with heldBlanks := #[c] }.enter .inBlanks)
    else
      (s.enter .fieldStart).readAtFieldStart d c
  else
    (s.enter .fieldStart).readAtFieldStart d c

def returnFromSkipped (s : Splitter) : Splitter :=
  s.countLine.discardLine.enter .afterIgnoredReturn

def readAtSkippedField (d : Dialect) (c : UInt8) (s : Splitter) :
    Except (Halted Splitter) Splitter :=
  if d.isTerminator c then s.endLineTo d .lineStart
  else if d.isReturn c then .ok s.returnFromSkipped
  else if d.isQuote c then .ok (s.enter .inSkippedQuotes)
  else if d.isDelimiter c then .ok s
  else .ok (s.enter .inSkippedField)

def readInSkippedField (d : Dialect) (c : UInt8) (s : Splitter) :
    Except (Halted Splitter) Splitter :=
  if d.isTerminator c then s.endLineTo d .lineStart
  else if d.isReturn c then .ok s.returnFromSkipped
  else if d.isDelimiter c then .ok (s.enter .skippedFieldStart)
  else .ok s

def readInSkippedQuotes (d : Dialect) (c : UInt8) (s : Splitter) : Splitter :=
  if d.isQuote c then s.enter (if d.doubleQuote then .afterSkippedQuote else .inSkippedField)
  else s

def readAfterSkippedQuote (d : Dialect) (c : UInt8) (s : Splitter) :
    Except (Halted Splitter) Splitter :=
  if d.isQuote c then .ok (s.enter .inSkippedQuotes)
  else if d.isTerminator c then s.endLineTo d .lineStart
  else if d.isReturn c then .ok s.returnFromSkipped
  else if d.isDelimiter c then .ok (s.enter .skippedFieldStart)
  else .ok (s.enter .inSkippedField)

def accept (d : Dialect) (c : UInt8) (s : Splitter) : Except (Halted Splitter) Splitter :=
  match s.state with
  | .lineStart => s.readAtLineStart d c
  | .fieldStart => s.readAtFieldStart d c
  | .inField => s.readInField d c
  | .escaped => .ok ((s.push c).enter .inField)
  | .inQuotes => .ok (s.readInQuotes d c)
  | .escapedInQuotes => .ok ((s.push c).enter .inQuotes)
  | .afterQuote => s.readAfterQuote d c
  | .betweenFields => s.readBetweenFields d c
  | .inTrailingComment => s.readInTrailingComment d c
  | .inCommentLine => .ok (s.readInCommentLine d c)
  | .inBlanks => s.readInBlanks d c
  | .skippedFieldStart => s.readAtSkippedField d c
  | .inSkippedField => s.readInSkippedField d c
  | .inSkippedQuotes => .ok (s.readInSkippedQuotes d c)
  | .afterSkippedQuote => s.readAfterSkippedQuote d c
  | .afterReturn | .afterIgnoredReturn | .finished => .ok s

/-- Settles a carriage return by the byte after it: ends its line and says whether the byte is used
up. A line feed is part of the ending, and a delimiter already is the first one of the next line. -/
def settleReturn (d : Dialect) (c : UInt8) (s : Splitter) :
    Except (Halted Splitter) (Splitter × Bool) :=
  match s.state with
  | .afterReturn => do
    if c = 10 then
      return (← s.endLineTo d .lineStart, true)
    else if d.isDelimiter c ∧ !d.blankDelimited then
      return ((← s.endLineTo d .fieldStart).closeField, true)
    else
      return (← s.endLineTo d (if d.isDelimiter c then .betweenFields else .lineStart), false)
  | .afterIgnoredReturn => .ok (s.enter .lineStart, c == 10 || d.isDelimiter c)
  | _ => .ok (s, false)

/-- Reads bytes until they are used up or the limit of lines is reached, and returns the unread
ones. -/
def scan (d : Dialect) (limit : Option Nat) :
    List UInt8 → Splitter → Except (Halted Splitter) (Splitter × List UInt8)
  | [], s => .ok (s, [])
  | c :: rest, s =>
    if s.reached limit then
      .ok (s, c :: rest)
    else do
      let (s, usedUp) ← s.settleReturn d c
      if usedUp then scan d limit rest s
      else if s.reached limit then .ok (s, c :: rest)
      else scan d limit rest (← s.accept d c)

def endLastLine (d : Dialect) (s : Splitter) : Except (Halted Splitter) Splitter :=
  match s.state with
  | .lineStart | .inBlanks | .afterIgnoredReturn | .inCommentLine | .finished => .ok s
  | .inQuotes | .escapedInQuotes => .error ⟨.malformed (.openQuote (s.fileLines + 1)), s⟩
  | .escaped => .error ⟨.malformed .openEscape, s⟩
  | .inField | .fieldStart | .afterQuote => s.closeField.endLine d
  | _ => s.endLine d

def finish (d : Dialect) (s : Splitter) : Except (Halted Splitter) Splitter := do
  return (← s.endLastLine d).enter .finished

def dropLines (s : Splitter) (count : Nat) : Splitter :=
  let count := min count s.lines.size
  if count = 0 then
    s
  else
    let words := ((s.lines[count]?).map (·.start)).getD s.lineStart
    { s with
      headerLines := s.headerLines - count
      stream := s.stream.dropFirst words
      lines := (s.lines.drop count).map fun line => { line with start := line.start - words }
      lineStart := s.lineStart - words }

end Splitter

end TypedTable.Csv
