import TypedTable.Text.Blank

/-!
# Digits and signs in numbers

A run of decimal digits may have a separator between two of them. The separator is no part of the
run unless a digit follows it.
-/

set_option autoImplicit false

namespace TypedTable.Numeral

def isDigit (byte : UInt8) : Bool := 48 ≤ byte && byte ≤ 57

def digitValue (byte : UInt8) : Nat := byte.toNat - 48

def startsWithDigit (text : List UInt8) : Bool := text.head?.any isDigit

def plainRun (text : List UInt8) : List Nat × List UInt8 :=
  ((text.takeWhile isDigit).map digitValue, text.dropWhile isDigit)

/-- As `plainRun`, but passing over every separator that a digit follows. -/
def groupedRun (separator : Option UInt8) : List UInt8 → List Nat × List UInt8
  | [] => ([], [])
  | byte :: rest =>
    if isDigit byte then
      let run := groupedRun separator rest
      (digitValue byte :: run.1, run.2)
    else if separator = some byte ∧ startsWithDigit rest then
      groupedRun separator rest
    else
      ([], byte :: rest)

def takeSign : List UInt8 → Bool × List UInt8
  | 45 :: rest => (true, rest)
  | 43 :: rest => (false, rest)
  | text => (false, text)

def ofDigits (digits : List Nat) : Nat := digits.foldl (fun n d => n * 10 + d) 0

end TypedTable.Numeral
