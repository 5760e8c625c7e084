/-!
# Lenient UTF-8

Bytes that belong to no well-formed sequence are replaced: each maximal beginning of a sequence that
is cut short, and each byte that begins none, becomes one replacement character.
-/

set_option autoImplicit false

namespace TypedTable.Text

def replacement : Char := '\ufffd'

/-- A sequence whose first bytes were read: `value` is made of them, `missing` more bytes are to
come, and the next of them must lie between `low` and `high`. -/
structure Partial where
  value : Nat
  missing : Nat
  low : Nat
  high : Nat

inductive Lead where
  | single (c : Char)
  | longer (partly : Partial)
  | invalid

/-- What a byte begins. The bounds of the second byte exclude overlong forms, surrogates and values
above the last code point. -/
def lead (byte : Nat) : Lead :=
  if byte < 0x80 then .single (Char.ofNat byte)
  else if 0xc2 ≤ byte ∧ byte ≤ 0xdf then .longer ⟨byte - 0xc0, 1, 0x80, 0xbf⟩
  else if byte = 0xe0 then .longer ⟨0, 2, 0xa0, 0xbf⟩
  else if byte = 0xed then .longer ⟨0xd, 2, 0x80, 0x9f⟩
  else if 0xe1 ≤ byte ∧ byte ≤ 0xef then .longer ⟨byte - 0xe0, 2, 0x80, 0xbf⟩
  else if byte = 0xf0 then .longer ⟨0, 3, 0x90, 0xbf⟩
  else if 0xf1 ≤ byte ∧ byte ≤ 0xf3 then .longer ⟨byte - 0xf0, 3, 0x80, 0xbf⟩
  else if byte = 0xf4 then .longer ⟨4, 3, 0x80, 0x8f⟩
  else .invalid

def decodeFrom : Option Partial → List UInt8 → List Char
  | none, [] => []
  | some _, [] => [replacement]
  | none, byte :: rest =>
    match lead byte.toNat with
    | .single c => c :: decodeFrom none rest
    | .longer begun => decodeFrom (some begun) rest
    | .invalid => replacement :: decodeFrom none rest
  | some begun, byte :: rest =>
    if begun.low ≤ byte.toNat ∧ byte.toNat ≤ begun.high then
      let value := begun.value * 64 + (byte.toNat - 0x80)
      if begun.missing = 1 then
        Char.ofNat value :: decodeFrom none rest
      else
        decodeFrom (some ⟨value, begun.missing - 1, 0x80, 0xbf⟩) rest
    else
      match lead byte.toNat with
      | .single c => replacement :: c :: decodeFrom none rest
      | .longer next => replacement :: decodeFrom (some next) rest
      | .invalid => replacement :: replacement :: decodeFrom none rest

def decode (bytes : List UInt8) : String := String.ofList (decodeFrom none bytes)

end TypedTable.Text
