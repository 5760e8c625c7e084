import TypedTable.Numeral.Digits

/-!
# Scanning decimal numbers

A decimal number is scanned to the digits that matter and a power of ten. Only so many digits are
kept, counted from the first that is not zero; later ones of the integer part raise the power and
later ones of the fraction are passed over.
-/

set_option autoImplicit false

namespace TypedTable.Numeral

structure DecimalMarks where
  point : UInt8
  exponent : UInt8
  separator : Option UInt8
  blanksMayFollow : Bool

/-- The digits kept so far, the first of which is not zero, and the power of ten of the last one. -/
structure Mantissa where
  kept : List Nat := []
  exponent : Int := 0
deriving DecidableEq, Repr

namespace Mantissa

/-- A zero before all other digits is not kept. -/
def keep (m : Mantissa) (digit : Nat) : Mantissa :=
  if m.kept.isEmpty ∧ digit = 0 then m else { m with kept := m.kept ++ [digit] }

def addInteger (budget : Nat) (m : Mantissa) (digit : Nat) : Mantissa :=
  if m.kept.length < budget then m.keep digit else { m with exponent := m.exponent + 1 }

def addFraction (budget : Nat) (m : Mantissa) (digit : Nat) : Mantissa :=
  if m.kept.length < budget then
    { m.keep digit with exponent := m.exponent - 1 }
  else
    m

def ofParts (budget : Nat) (integer fraction : List Nat) : Mantissa :=
  fraction.foldl (addFraction budget) (integer.foldl (addInteger budget) {})

end Mantissa

/-- Exponents are 64-bit words and stay at the ends of their range. -/
def saturate (n : Int) : Int := max Int64.minValue.toInt (min n Int64.maxValue.toInt)

def exponentOfDigits (digits : List Nat) : Int :=
  digits.foldl (fun (n : Int) (d : Nat) => saturate (saturate (n * 10) + d)) 0

def toLower (byte : UInt8) : UInt8 := if 65 ≤ byte && byte ≤ 90 then byte + 32 else byte

def takeExponent (marker : UInt8) : List UInt8 → Option (Int × List UInt8)
  | [] => none
  | byte :: rest =>
    if toLower byte = toLower marker then
      let signed := takeSign rest
      if startsWithDigit signed.2 then
        let run := plainRun signed.2
        let value := exponentOfDigits run.1
        some (if signed.1 then -value else value, run.2)
      else
        none
    else
      none

structure Scan where
  negative : Bool
  mantissa : Mantissa
  /-- Neither a decimal point nor an exponent was read. -/
  integral : Bool
deriving DecidableEq, Repr

inductive ScanFault where
  | noDigits
  | trailing
deriving DecidableEq, Repr

def takeFraction (point : UInt8) : List UInt8 → Option (List Nat) × List UInt8
  | [] => (none, [])
  | byte :: rest =>
    if byte = point then
      let run := plainRun rest
      (some run.1, run.2)
    else
      (none, byte :: rest)

def scan (budget : Nat) (marks : DecimalMarks) (text : List UInt8) : Except ScanFault Scan :=
  let signed := takeSign (Text.skipBlanks text)
  let integer := groupedRun marks.separator signed.2
  let fraction := takeFraction marks.point integer.2
  let fractionDigits := fraction.1.getD []
  if integer.1.isEmpty && fractionDigits.isEmpty then
    .error .noDigits
  else
    let mantissa := Mantissa.ofParts budget integer.1 fractionDigits
    let power := takeExponent marks.exponent fraction.2
    let rest := match power with
      | some (_, rest) => rest
      | none => fraction.2
    let mantissa := match power with
      | some (value, _) => { mantissa with exponent := saturate (mantissa.exponent + value) }
      | none => mantissa
    if (if marks.blanksMayFollow then Text.skipBlanks rest else rest).isEmpty then
      .ok
        { negative := signed.1
          mantissa := mantissa
          integral := fraction.1.isNone && power.isNone }
    else
      .error .trailing

end TypedTable.Numeral
