/-!
# Blank bytes and characters

Two classes are called blank: the six ASCII bytes around numbers in a field, and the characters
with the Unicode property White_Space around numbers in an option value.
-/

set_option autoImplicit false

namespace TypedTable.Text

/-- Space, tab, line feed, vertical tab, form feed and carriage return. -/
def isBlank (byte : UInt8) : Bool :=
  byte == 32 || (9 ≤ byte && byte ≤ 13)

def skipBlanks (text : List UInt8) : List UInt8 := text.dropWhile isBlank

def trimEnd {α : Type} (p : α → Bool) (text : List α) : List α :=
  (text.reverse.dropWhile p).reverse

def isWhiteSpace (c : Char) : Bool :=
  let code := c.toNat
  (9 ≤ code && code ≤ 13) || code == 0x20 || code == 0x85 || code == 0xa0 || code == 0x1680 ||
    (0x2000 ≤ code && code ≤ 0x200a) || code == 0x2028 || code == 0x2029 || code == 0x202f ||
    code == 0x205f || code == 0x3000

def trimWhiteSpace (text : List Char) : List Char :=
  trimEnd isWhiteSpace (text.dropWhile isWhiteSpace)

end TypedTable.Text
