import AccessControl.Text.Ascii

/-! Bytes written in lower-case hexadecimal, two digits a byte. -/

namespace AccessControl.Hex

/-- The digit of a value below sixteen. -/
def digit (value : Nat) : Char :=
  Char.ofNat (if value < 10 then 0x30 + value else 0x57 + value)

/-- The digits of a byte, high half first. -/
def byteDigits (b : UInt8) : List Char := [digit (b.toNat / 16), digit (b.toNat % 16)]

/-- The digits of a byte string. -/
def digits (bytes : Bytes) : List Char := bytes.flatMap byteDigits

/-- The text of a byte string. -/
def encode (bytes : Bytes) : String := String.ofList (digits bytes)


end AccessControl.Hex
