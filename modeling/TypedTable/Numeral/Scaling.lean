import TypedTable.Numeral.Decimal

/-!
# Scaling by powers of ten

The kept digits are accumulated in the arithmetic of the target format and then scaled by one or two
exact table powers. How often it is scaled depends on the exponent alone.
-/

set_option autoImplicit false

namespace TypedTable.Numeral

inductive Scaling where
  | infinite
  | multiply (power : Nat)
  | divide (power : Nat)
  | divideTwice (first second : Nat)
  | vanish
deriving DecidableEq, Repr

def Scaling.ofExponent (most : Nat) (exponent : Int) : Scaling :=
  if (most : Int) < exponent then .infinite
  else if 0 ≤ exponent then .multiply exponent.toNat
  else if -(most : Int) ≤ exponent then .divide (-exponent).toNat
  else if -2 * (most : Int) ≤ exponent then .divideTwice (-(most : Int) - exponent).toNat most
  else .vanish

/-- A binary format: its arithmetic, how many decimal digits are kept for it, and the largest power
of ten in its table. -/
structure FloatFormat (α : Type) where
  budget : Nat
  mostPower : Nat
  ofNat : Nat → α
  power : Nat → α
  add : α → α → α
  mul : α → α → α
  div : α → α → α
  neg : α → α
  isInfinite : α → Bool

def FloatFormat.double : FloatFormat Float :=
  { budget := 17
    mostPower := 308
    ofNat := Float.ofNat
    power := fun k => Float.ofScientific 1 false k
    add := (· + ·)
    mul := (· * ·)
    div := (· / ·)
    neg := (-·)
    isInfinite := Float.isInf }

def FloatFormat.single : FloatFormat Float32 :=
  { budget := 9
    mostPower := 38
    ofNat := Float32.ofNat
    power := fun k => Float32.ofScientific 1 false k
    add := (· + ·)
    mul := (· * ·)
    div := (· / ·)
    neg := (-·)
    isInfinite := Float32.isInf }

inductive FloatFault where
  | scan (fault : ScanFault)
  | infinite (negative : Bool)
deriving DecidableEq, Repr

namespace FloatFormat

variable {α : Type}

def accumulate (format : FloatFormat α) (digits : List Nat) : α :=
  digits.foldl (fun n d => format.add (format.mul n (format.ofNat 10)) (format.ofNat d))
    (format.ofNat 0)

def magnitude (format : FloatFormat α) (mantissa : Mantissa) : Option α :=
  let number := format.accumulate mantissa.kept
  let value :=
    if mantissa.kept.isEmpty then
      some (format.ofNat 0)
    else
      match Scaling.ofExponent format.mostPower mantissa.exponent with
      | .infinite => none
      | .multiply k => some (format.mul number (format.power k))
      | .divide k => some (format.div number (format.power k))
      | .divideTwice k l => some (format.div (format.div number (format.power k)) (format.power l))
      | .vanish => some (format.ofNat 0)
  value.filter fun v => !format.isInfinite v

/-- The number that a text denotes, and whether it has the form of an integer. -/
def parse (format : FloatFormat α) (marks : DecimalMarks) (text : List UInt8) :
    Except FloatFault (α × Bool) :=
  match scan format.budget marks text with
  | .error fault => .error (.scan fault)
  | .ok result =>
    match format.magnitude result.mantissa with
    | none => .error (.infinite result.negative)
    | some value =>
      .ok (if result.negative then format.neg value else value, result.integral)

end FloatFormat

end TypedTable.Numeral
