import TypedTable.Csv.Fault
import TypedTable.Interval.Bounds

/-!
# Streams of fields

The bytes of all fields lie one after the other, each field with a zero byte behind it. The stream
knows where every finished field starts and where the field being built does. The table of the
starts doubles when it is full, from its first size on, and cannot grow without bound.
-/

set_option autoImplicit false

namespace TypedTable.Csv

structure FieldStream where
  bytes : Array UInt8 := #[]
  starts : Array Nat := #[]
  openStart : Nat := 0
  /-- The size of the table when it was allocated or trimmed last. -/
  firstSize : Nat := 2
  /-- The most entries there were in the table since then. -/
  peak : Nat := 0
deriving DecidableEq, Repr

namespace FieldStream

def size (stream : FieldStream) : Nat := stream.starts.size

def push (stream : FieldStream) (byte : UInt8) : FieldStream :=
  { stream with bytes := stream.bytes.push byte }

def close (stream : FieldStream) : FieldStream :=
  let bytes := stream.bytes.push 0
  let starts := stream.starts.push stream.openStart
  { stream with
    bytes := bytes
    starts := starts
    openStart := bytes.size
    peak := max stream.peak starts.size }

def doubled (entries size : Nat) : Nat :=
  if size = 0 ∨ entries ≤ size then size else doubled entries (2 * size)
termination_by entries - size

/-- Whether `count` more fields can be finished. Their number and the size of the table are machine
words, and a table is smaller than half of the memory that words can address. -/
def checkRoom (stream : FieldStream) (count : Nat) : Except ReadFault Unit :=
  let fields := stream.size + count
  let size := doubled fields stream.firstSize
  if wordLimit ≤ fields then
    .error (.overflow .fieldCount)
  else if fields ≤ stream.firstSize then
    .ok ()
  else if wordLimit ≤ size then
    .error (.overflow .fieldTable)
  else if wordLimit / 2 ≤ size * 8 then
    .error (.memoryExhausted (.fieldTable size))
  else
    .ok ()

def tableSize (stream : FieldStream) (reserved : Nat) : Nat :=
  doubled (max stream.peak reserved) stream.firstSize

def resize (stream : FieldStream) (size : Nat) : FieldStream :=
  { stream with firstSize := size, peak := stream.size }

def start (stream : FieldStream) (index : Nat) : Nat :=
  (stream.starts[index]?).getD stream.openStart

def field (stream : FieldStream) (index : Nat) : List UInt8 :=
  (stream.bytes.extract (stream.start index) (stream.start (index + 1) - 1)).toList

/-- Takes back the last `count` finished fields and what was built after them. -/
def dropLast (stream : FieldStream) (count : Nat) : FieldStream :=
  if count = 0 then
    { stream with openStart := stream.bytes.size }
  else
    let first := stream.size - count
    let bytes := stream.bytes.take (stream.start first)
    { stream with bytes := bytes, starts := stream.starts.take first, openStart := bytes.size }

def dropFirst (stream : FieldStream) (count : Nat) : FieldStream :=
  let cut := if count = 0 then 0 else stream.start count
  { stream with
    bytes := stream.bytes.drop cut
    starts := (stream.starts.drop count).map (· - cut)
    openStart := stream.openStart - cut }

end FieldStream

end TypedTable.Csv
