import TypedTable.Numeral.Decimal

/-!
# Truth values

The words are matched whatever the case of their letters.
-/

set_option autoImplicit false

namespace TypedTable.Numeral

def trueWord : List UInt8 := [116, 114, 117, 101]

def falseWord : List UInt8 := [102, 97, 108, 115, 101]

def dropWord (word text : List UInt8) : Option (List UInt8) :=
  if (text.take word.length).map toLower = word then some (text.drop word.length) else none

def parseTruth (text : List UInt8) : Option Bool :=
  let start := Text.skipBlanks text
  match dropWord trueWord start, dropWord falseWord start with
  | some rest, _ => if rest.all Text.isBlank then some true else none
  | none, some rest => if rest.all Text.isBlank then some false else none
  | none, none => none

end TypedTable.Numeral
