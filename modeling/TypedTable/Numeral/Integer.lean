import TypedTable.Numeral.Digits

/-!
# Integers within bounds

The digits are accumulated from the left, and each is compared with what the bound leaves room for
before it is added, so no intermediate value leaves the range.
-/

set_option autoImplicit false

namespace TypedTable.Numeral

inductive IntegerFault where
  | noDigits
  | outOfRange
  | trailing
  | minusSign
deriving DecidableEq, Repr

def raise (max : Int) (number : Int) (digit : Nat) : Option Int :=
  let limit := max.tdiv 10
  if number < limit ∨ (number = limit ∧ (digit : Int) ≤ max.tmod 10) then
    some (number * 10 + digit)
  else
    none

def lower (min : Int) (number : Int) (digit : Nat) : Option Int :=
  let limit := min.tdiv 10
  if number > limit ∨ (number = limit ∧ (digit : Int) ≤ -(min.tmod 10)) then
    some (number * 10 - digit)
  else
    none

def checkEnd (rest : List UInt8) (value : Int) : Except IntegerFault Int :=
  if (Text.skipBlanks rest).isEmpty then .ok value else .error .trailing

def accumulate (separator : Option UInt8) (step : Int → Nat → Option Int) (text : List UInt8) :
    Except IntegerFault Int :=
  if startsWithDigit text then
    let run := groupedRun separator text
    match run.1.foldlM step 0 with
    | some value => checkEnd run.2 value
    | none => .error .outOfRange
  else
    .error .noDigits

def parseSigned (separator : Option UInt8) (min max : Int) (text : List UInt8) :
    Except IntegerFault Int :=
  let signed := takeSign (Text.skipBlanks text)
  accumulate separator (if signed.1 then lower min else raise max) signed.2

/-- Refuses every minus sign, that of a zero too. -/
def parseUnsigned (separator : Option UInt8) (max : Int) (text : List UInt8) :
    Except IntegerFault Int :=
  let signed := takeSign (Text.skipBlanks text)
  if signed.1 then .error .minusSign else accumulate separator (raise max) signed.2

end TypedTable.Numeral
