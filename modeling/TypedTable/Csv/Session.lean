import TypedTable.Csv.Feed
import TypedTable.Csv.Splitter

/-!
# Sessions

A session splits what a feed delivers. It can stop after some lines and go on later, also after a
failure. A byte-order mark at the beginning of the input is passed over, however the pieces cut it.
-/

set_option autoImplicit false

namespace TypedTable.Csv

structure Session where
  splitter : Splitter := {}
  chunkSize : Nat := 262144
  /-- Bytes that were delivered but not split yet. -/
  unread : List UInt8 := []
  exhausted : Bool := false
  /-- How many bytes of a byte-order mark were read, until it is known if there is one. -/
  mark : Option Nat := some 0
  /-- The most fields that there was to be room for since the table of their starts was trimmed. -/
  reserved : Nat := 0
  /-- The largest size that this table had when it was trimmed. -/
  widest : Nat := 0
deriving DecidableEq, Repr

def byteOrderMark : List UInt8 := [0xef, 0xbb, 0xbf]

/-- Where a session stands after a request, with the fault that ended it early, if any. -/
structure Progress where
  session : Session
  feed : Feed
  fault : Option ReadFault

namespace Session

def start (headerLines : Nat) (anyWidth : Bool) (chunkSize : Nat) : Session :=
  { splitter := { headerLines := headerLines, anyWidth := anyWidth }
    chunkSize := max 1 chunkSize }

/-- Compares the unread bytes with what a byte-order mark has next. Bytes that turn out to be none
are put back in front. -/
def settleMark (s : Session) : Session :=
  match s.mark with
  | none => s
  | some matched =>
    let wanted := byteOrderMark.drop matched
    let count := min wanted.length s.unread.length
    if s.unread.take count = wanted.take count then
      { s with
        unread := s.unread.drop count
        mark := if matched + count < byteOrderMark.length then some (matched + count) else none }
    else
      { s with unread := byteOrderMark.take matched ++ s.unread, mark := none }

/-- Makes room for a field in every unread byte, and for as many as there was room for once. -/
def makeRoom (s : Session) : Session :=
  let fields := s.splitter.stream.size
  { s with
    reserved :=
      if s.unread = [] then s.reserved
      else max s.reserved (fields + max s.unread.length (s.widest - fields)) }

/-- Splits the unread bytes. A fault leaves them unread. -/
def digest (d : Dialect) (limit : Option Nat) (s : Session) : Except (Halted Session) Session :=
  let s := s.settleMark
  if s.mark.isSome then
    .ok s
  else
    let s := s.makeRoom
    match s.splitter.scan d limit s.unread with
    | .ok (splitter, rest) => .ok { s with splitter := splitter, unread := rest }
    | .error halted => .error ⟨halted.fault, { s with splitter := halted.left }⟩

def releaseMark (s : Session) : Session :=
  { s with unread := byteOrderMark.take (s.mark.getD 0) ++ s.unread, mark := none }

def conclude (d : Dialect) (limit : Option Nat) (s : Session) :
    Except (Halted Session) Session := do
  let s ← s.releaseMark.digest d limit
  if s.splitter.reached limit then
    return s
  else
    match s.splitter.finish d with
    | .ok splitter => .ok { s with splitter := splitter }
    | .error halted => .error ⟨halted.fault, { s with splitter := halted.left }⟩

def isFinished (s : Session) : Bool := s.splitter.isFinished

def isSettled (s : Session) (limit : Option Nat) : Bool :=
  s.isFinished || s.splitter.reached limit

def progress (feed : Feed) : Except (Halted Session) Session → Progress
  | .ok session => ⟨session, feed, none⟩
  | .error halted => ⟨halted.left, feed, some halted.fault⟩

def pull (d : Dialect) (limit : Option Nat) (feed : Feed) (s : Session) : Progress :=
  if s.isSettled limit then
    ⟨s, feed, none⟩
  else if s.exhausted then
    progress feed (s.conclude d limit)
  else
    match _delivered : (feed.read s.chunkSize).1 with
    | .failure text => ⟨s, (feed.read s.chunkSize).2, some (.readFailed text)⟩
    | .endOfInput | .bytes [] =>
      progress (feed.read s.chunkSize).2 ({ s with exhausted := true }.conclude d limit)
    | .bytes (byte :: piece) =>
      match { s with unread := byte :: piece }.digest d limit with
      | .ok next => pull d limit (feed.read s.chunkSize).2 next
      | .error halted =>
        ⟨halted.left, (feed.read s.chunkSize).2, some halted.fault⟩
termination_by feed.weight
decreasing_by exact Feed.weight_read_lt _delivered (List.cons_ne_nil byte piece)

def tokenize (d : Dialect) (limit : Option Nat) (feed : Feed) (s : Session) : Progress :=
  if s.isSettled limit then
    ⟨s, feed, none⟩
  else
    match s.digest d limit with
    | .ok next => next.pull d limit feed
    | .error halted => ⟨halted.left, feed, some halted.fault⟩

def tokenizeAll (d : Dialect) (feed : Feed) (s : Session) : Progress := s.tokenize d none feed

/-- Splits until `count` more lines are committed or the input ends. The limit is a machine word. -/
def tokenizeLines (d : Dialect) (count : Nat) (feed : Feed) (s : Session) : Progress :=
  if count = 0 then
    ⟨s, feed, none⟩
  else
    s.tokenize d (some ((s.splitter.lines.size + count) % wordLimit)) feed

def dropLines (s : Session) (count : Nat) : Session :=
  { s with splitter := s.splitter.dropLines count }

/-- Cuts the table of the starts down to the next power of two and one more. -/
def trim (s : Session) : Session :=
  let stream := s.splitter.stream
  let size := stream.tableSize s.reserved
  let target := stream.size.nextPowerOfTwo + 1
  if target < size then
    { s with
      splitter := { s.splitter with stream := stream.resize target }
      reserved := 0
      widest := max s.widest size }
  else
    { s with widest := max s.widest size }

end Session

inductive Request where
  | all
  | lines (count : Nat)
  | drop (count : Nat)
  | trim
deriving DecidableEq, Repr

def Request.perform (d : Dialect) (request : Request) (feed : Feed) (s : Session) : Progress :=
  match request with
  | .all => s.tokenizeAll d feed
  | .lines count => s.tokenizeLines d count feed
  | .drop count => ⟨s.dropLines count, feed, none⟩
  | .trim => ⟨s.trim, feed, none⟩

end TypedTable.Csv
