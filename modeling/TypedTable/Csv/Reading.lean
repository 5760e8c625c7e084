import TypedTable.Csv.Matrix
import TypedTable.Csv.Session
import TypedTable.Csv.Settings

/-!
# Reading whole inputs

A read splits all of its input and converts what the settings select. Remarks never make a read
fail.
-/

set_option autoImplicit false

namespace TypedTable.Csv

structure Reading (type : FieldType) where
  data : Array type.Carrier
  rows : Nat
  cols : Nat
  /-- The headings of the columns, if they were asked for and there is a line for them. -/
  headings : Option (List String)
  status : Status
  remarks : List Remark

namespace Settings

def headerLines (s : Settings) : Nat := if s.header then 1 else 0

def session (s : Settings) : Session :=
  Session.start s.headerLines s.columns.isSome s.chunkSize

def plan (s : Settings) : MatrixPlan :=
  { headerLines := s.headerLines
    skipFooter := s.skipFooter
    warnForMissing := s.warnForMissing
    order := s.order
    columns := s.columns }

end Settings

namespace Reading

def split (s : Settings) (feed : Feed) : Except ReadFault Splitter :=
  let progress := s.session.tokenizeAll s.dialect feed
  match progress.fault with
  | some fault => .error fault
  | none => .ok progress.session.splitter

def ignoredLines (s : Splitter) : List Remark :=
  if s.fileLines ≠ s.lines.size then [.ignoredLines s.lines.size s.fileLines] else []

def splitStatus (s : Splitter) : Status :=
  if s.fileLines ≠ s.lines.size then .badLines else .success

def ofSplitter (type : FieldType) (s : Settings) (splitter : Splitter) :
    Except ReadFault (Reading type) := do
  let matrix ← Matrix.ofLines s.dialect type s.plan splitter
  let names ←
    if s.header ∧ 0 < splitter.lines.size then
      (headingTexts s.dialect splitter matrix.cols s.columns).map some
    else
      pure none
  return {
    data := matrix.data
    rows := matrix.rows
    cols := matrix.cols
    headings := names
    status := if matrix.status = .success then splitStatus splitter else matrix.status
    remarks := splitter.warnings.toList.map .droppedLine ++ ignoredLines splitter ++
      matrix.remarks }

def ofFeed (type : FieldType) (s : Settings) (feed : Feed) : Except ReadFault (Reading type) := do
  ofSplitter type s (← split s feed)

end Reading

def Settings.check (s : Settings) : Except ReadFault Unit :=
  s.validate.mapError .option

/-- Reads an input, which is opened after the settings are found valid. -/
def read (type : FieldType) (s : Settings) (input : Except ReadFault Feed) :
    Except ReadFault (Reading type) := do
  s.check
  Reading.ofFeed type s (← input)

def readBytes (type : FieldType) (s : Settings) (bytes : List UInt8) :
    Except ReadFault (Reading type) :=
  read type s (.ok (.memory bytes))

def readFile (type : FieldType) (s : Settings) (path : String) (content : Option (List UInt8)) :
    Except ReadFault (Reading type) :=
  read type s (Feed.openFile path content s.memoryMapped)

end TypedTable.Csv
