/-!
# Scalar types

A column holds values of one scalar type. Every type but the strings keeps one of its own values
as the mark of a missing entry.
-/

set_option autoImplicit false

namespace TypedTable

inductive ScalarType where
  | int
  | float
  | double
  | bool
  | str
deriving DecidableEq, Repr

namespace ScalarType

/-- What a cell holds: booleans are bytes, so that a third value can mark the missing ones. -/
@[reducible] def Carrier : ScalarType → Type
  | .int => Int64
  | .float => Float32
  | .double => Float
  | .bool => UInt8
  | .str => String

def blank : (type : ScalarType) → type.Carrier
  | .int => 0
  | .float => 0
  | .double => 0
  | .bool => 0
  | .str => ""

def hasSentinel : ScalarType → Bool
  | .str => false
  | _ => true

def isMissing : (type : ScalarType) → type.Carrier → Bool
  | .int, v => v == Int64.maxValue
  | .float, v => v.isNaN
  | .double, v => v.isNaN
  | .bool, v => v == 255
  | .str, _ => false

def text : ScalarType → String
  | .int => "integer"
  | .float => "float"
  | .double => "double"
  | .bool => "boolean"
  | .str => "string"

theorem isMissing_of_not_hasSentinel {type : ScalarType} (h : type.hasSentinel = false)
    (v : type.Carrier) : type.isMissing v = false := by
  cases type <;> simp_all [hasSentinel, isMissing]

end ScalarType

inductive Order where
  | rowMajor
  | columnMajor
deriving DecidableEq, Repr, Inhabited

namespace Order

def offset (order : Order) (row col rows cols : Nat) : Nat :=
  match order with
  | .rowMajor => row * cols + col
  | .columnMajor => col * rows + row

theorem offset_lt (order : Order) {row col rows cols : Nat} (hr : row < rows) (hc : col < cols) :
    order.offset row col rows cols < rows * cols := by
  cases order with
  | rowMajor =>
    calc row * cols + col < row * cols + cols := Nat.add_lt_add_left hc _
      _ = (row + 1) * cols := by rw [Nat.succ_mul]
      _ ≤ rows * cols := Nat.mul_le_mul_right cols hr
  | columnMajor =>
    calc col * rows + row < col * rows + rows := Nat.add_lt_add_left hr _
      _ = (col + 1) * rows := by rw [Nat.succ_mul]
      _ ≤ cols * rows := Nat.mul_le_mul_right rows hc
      _ = rows * cols := Nat.mul_comm _ _

/-- Different cells of a rectangle have different offsets. -/
theorem offset_inj (order : Order) {row col row' col' rows cols : Nat} (hr : row < rows)
    (hc : col < cols) (hr' : row' < rows) (hc' : col' < cols)
    (h : order.offset row col rows cols = order.offset row' col' rows cols) :
    row = row' ∧ col = col' := by
  have hsplit {major minor major' minor' size : Nat} (hlt : minor < size) (hlt' : minor' < size)
      (he : major * size + minor = major' * size + minor') : major = major' ∧ minor = minor' := by
    have hminor := congrArg (· % size) he
    simp only [Nat.mul_add_mod_self_right, Nat.mod_eq_of_lt hlt, Nat.mod_eq_of_lt hlt'] at hminor
    subst hminor
    have hpos : 0 < size := by omega
    exact ⟨Nat.eq_of_mul_eq_mul_right hpos (Nat.add_right_cancel he), rfl⟩
  cases order with
  | rowMajor => exact hsplit hc hc' h
  | columnMajor => exact (hsplit hr hr' h).symm

end Order

end TypedTable
