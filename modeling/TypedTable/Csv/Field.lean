import TypedTable.Csv.Dialect
import TypedTable.Csv.Fault
import TypedTable.Numeral.Integer
import TypedTable.Numeral.Truth
import TypedTable.Text.Utf8

/-!
# Fields as values

A field is converted to one of the scalar types of tables, to a 32-bit integer or to an unsigned
word. Every type but the strings refuses what it cannot represent.
-/

set_option autoImplicit false

namespace TypedTable.Csv

inductive FieldType where
  | scalar (type : ScalarType)
  | int32
  | word64
deriving DecidableEq, Repr

namespace FieldType

@[reducible] def Carrier : FieldType → Type
  | .scalar type => type.Carrier
  | .int32 => Int32
  | .word64 => UInt64

def name : FieldType → String
  | .scalar .int => "i64"
  | .scalar .float => "f32"
  | .scalar .double => "f64"
  | .scalar .bool => "bool"
  | .scalar .str => "string"
  | .int32 => "i32"
  | .word64 => "u64"

def missing : (type : FieldType) → type.Carrier
  | .scalar .int => Int64.maxValue
  | .scalar .float => Float32.ofScientific 0 false 0 / Float32.ofScientific 0 false 0
  | .scalar .double => Float.ofScientific 0 false 0 / Float.ofScientific 0 false 0
  | .scalar .bool => 255
  | .scalar .str => ""
  | .int32 => Int32.maxValue
  | .word64 => 0xffffffffffffffff

end FieldType

structure Converted (α : Type) where
  value : α
  /-- The text has the form of an integer. -/
  integral : Bool
deriving Repr

namespace FieldFault

def ofInteger (type : FieldType) : Numeral.IntegerFault → FieldFault
  | .noDigits => .noDigits
  | .outOfRange => .outOfRange type.name
  | .trailing => .trailing
  | .minusSign => .minusSign

def ofFloat : Numeral.FloatFault → FieldFault
  | .scan .noDigits => .noDigits
  | .scan .trailing => .trailing
  | .infinite negative => .infinite negative

end FieldFault

namespace Field

def toInteger (d : Dialect) (type : FieldType) (min max : Int) (field : List UInt8) :
    Except FieldFault Int :=
  (Numeral.parseSigned d.thousands min max field).mapError (FieldFault.ofInteger type)

def toFloat {α : Type} (format : Numeral.FloatFormat α) (d : Dialect) (field : List UInt8) :
    Except FieldFault (Converted α) :=
  match format.parse d.decimalMarks field with
  | .ok (value, integral) => .ok ⟨value, integral⟩
  | .error fault => .error (.ofFloat fault)

/-- The text of a field. Blanks after it never count, blanks before it only if they are kept. -/
def toText (d : Dialect) (field : List UInt8) : String :=
  Text.decode
    (Text.trimEnd Text.isBlank (if d.skipInitialSpace then Text.skipBlanks field else field))

def convert (d : Dialect) :
    (type : FieldType) → List UInt8 → Except FieldFault (Converted type.Carrier)
  | .scalar .int, field => do
    let value ← toInteger d (.scalar .int) d.intMin.toInt d.intMax.toInt field
    return ⟨Int64.ofInt value, true⟩
  | .int32, field => do
    let value ← toInteger d .int32 (max d.intMin.toInt Int32.minValue.toInt)
      (min d.intMax.toInt Int32.maxValue.toInt) field
    return ⟨Int32.ofInt value, true⟩
  | .word64, field => do
    let value ← (Numeral.parseUnsigned d.thousands d.uintMax.toNat field).mapError
      (FieldFault.ofInteger .word64)
    return ⟨UInt64.ofNat value.toNat, true⟩
  | .scalar .bool, field =>
    match Numeral.parseTruth field with
    | some value => .ok ⟨if value then 1 else 0, false⟩
    | none => .error .notTruth
  | .scalar .double, field => toFloat .double d field
  | .scalar .float, field => toFloat .single d field
  | .scalar .str, field => .ok ⟨toText d field, false⟩

def value? (d : Dialect) (type : FieldType) (field : List UInt8) : Option type.Carrier :=
  match convert d type field with
  | .ok converted => some converted.value
  | .error _ => none

end Field

end TypedTable.Csv
