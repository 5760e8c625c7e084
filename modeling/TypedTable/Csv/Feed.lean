import TypedTable.Csv.Fault

/-!
# Byte feeds

Input arrives in pieces. A feed answers each request with some bytes, with the end of the input or
with a failure, and becomes the feed that answers the next one.
-/

set_option autoImplicit false

namespace TypedTable.Csv

inductive Delivery where
  | bytes (piece : List UInt8)
  | endOfInput
  | failure (text : String)
deriving DecidableEq, Repr

/-- Bytes in memory are given out while any are left. A stream finds its end by a read that brings
nothing. A script gives out its deliveries one by one, whatever was asked for. -/
inductive Feed where
  | memory (unread : List UInt8)
  | stream (unread : List UInt8)
  | script (deliveries : List Delivery)
deriving DecidableEq, Repr

namespace Feed

def read (most : Nat) : Feed → Delivery × Feed
  | .memory [] => (.endOfInput, .memory [])
  | .memory (byte :: rest) =>
    (.bytes ((byte :: rest).take most), .memory ((byte :: rest).drop most))
  | .stream unread =>
    match unread.take most with
    | [] => (.endOfInput, .stream unread)
    | byte :: rest => (.bytes (byte :: rest), .stream (unread.drop most))
  | .script [] => (.endOfInput, .script [])
  | .script (delivery :: later) => (delivery, .script later)

/-- Bounds the number of requests that can still bring bytes. -/
def weight : Feed → Nat
  | .memory unread => unread.length
  | .stream unread => unread.length
  | .script deliveries => deliveries.length

theorem weight_read_lt {most : Nat} {feed : Feed} {piece : List UInt8}
    (h : (feed.read most).1 = .bytes piece) (hp : piece ≠ []) :
    (feed.read most).2.weight < feed.weight := by
  match feed with
  | .memory [] => simp [read] at h
  | .memory (byte :: rest) =>
    simp only [read, Delivery.bytes.injEq] at h
    cases most with
    | zero => simp [← h] at hp
    | succ n =>
      show (rest.drop n).length < rest.length + 1
      rw [List.length_drop]
      omega
  | .stream unread =>
    cases unread with
    | nil => simp [read] at h
    | cons byte rest =>
      cases most with
      | zero => simp [read] at h
      | succ n =>
        show (rest.drop n).length < rest.length + 1
        rw [List.length_drop]
        omega
  | .script [] => simp [read] at h
  | .script (delivery :: later) => exact Nat.lt_succ_self later.length

def openFile (path : String) (content : Option (List UInt8)) (memoryMapped : Bool) :
    Except ReadFault Feed :=
  match content with
  | some bytes => .ok (if memoryMapped then .memory bytes else .stream bytes)
  | none => .error (.fileNotFound path)

end Feed

end TypedTable.Csv
