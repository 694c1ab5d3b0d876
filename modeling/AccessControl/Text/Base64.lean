import AccessControl.Text.Ascii

/-!
Strict standard base64: padding is required and the bits that the last symbol leaves over are
zero. `encode` writes three bytes as four symbols; `decode` reads them back and says what is wrong
with anything else, with the offset in the text.
-/

namespace AccessControl.Base64

/-! ### Symbols -/

/-- What fills the last four places. -/
def pad : UInt8 := Ascii.equals

/-- The symbol of a value below 64. -/
def symbol (value : Nat) : UInt8 :=
  if value < 26 then UInt8.ofNat (0x41 + value)
  else if value < 52 then UInt8.ofNat (0x61 + (value - 26))
  else if value < 62 then UInt8.ofNat (0x30 + (value - 52))
  else if value = 62 then Ascii.plus
  else Ascii.slash

/-- The value of a symbol. -/
def value? (b : UInt8) : Option Nat :=
  if 0x41 ≤ b && b ≤ 0x5A then some (b.toNat - 0x41)
  else if 0x61 ≤ b && b ≤ 0x7A then some (b.toNat - 0x61 + 26)
  else if Ascii.isDigit b then some (b.toNat - 0x30 + 52)
  else if b == Ascii.plus then some 62
  else if b == Ascii.slash then some 63
  else none

/-! ### Writing -/

/-- The symbols of a byte string, filled up to a multiple of four. -/
def encode : Bytes → Bytes
  | [] => []
  | [a] => [symbol (a.toNat / 4), symbol (a.toNat % 4 * 16), pad, pad]
  | [a, b] =>
    [symbol (a.toNat / 4), symbol (a.toNat % 4 * 16 + b.toNat / 16),
      symbol (b.toNat % 16 * 4), pad]
  | a :: b :: c :: rest =>
    symbol (a.toNat / 4) :: symbol (a.toNat % 4 * 16 + b.toNat / 16) ::
      symbol (b.toNat % 16 * 4 + c.toNat / 64) :: symbol (c.toNat % 64) :: encode rest

/-! ### Reading -/

/-- Why a text is not base64. -/
inductive Fault
  /-- A byte that is no symbol where one has to stand; padding in the wrong place is one. -/
  | invalidSymbol (byte : UInt8) (offset : Nat)
  /-- The last symbol holds bits that no byte takes. -/
  | invalidLastSymbol (byte : UInt8) (offset : Nat)
  /-- So many symbols leave one alone in the last four places. -/
  | invalidLength (symbols : Nat)
  /-- The last four places are not filled up. -/
  | invalidPadding
  deriving DecidableEq

/-- The text of a fault. -/
def Fault.message : Fault → String
  | .invalidSymbol byte offset => s!"Invalid symbol {byte}, offset {offset}."
  | .invalidLastSymbol byte offset => s!"Invalid last symbol {byte}, offset {offset}."
  | .invalidLength symbols => s!"Invalid input length: {symbols}"
  | .invalidPadding => "Invalid padding"

/-- The values of a run of symbols that starts at `offset`. -/
def values (offset : Nat) : Bytes → Except Fault (List Nat)
  | [] => .ok []
  | b :: rest =>
    match value? b with
    | none => .error (.invalidSymbol b offset)
    | some value => do return value :: (← values (offset + 1) rest)

/-- The bytes that up to four values hold, and whether the bits left over are zero. -/
def unpack : List Nat → Bytes × Bool
  | [v, w] => ([UInt8.ofNat (v * 4 + w / 16)], w % 16 == 0)
  | [v, w, x] =>
    ([UInt8.ofNat (v * 4 + w / 16), UInt8.ofNat (w % 16 * 16 + x / 4)], x % 4 == 0)
  | [v, w, x, y] =>
    ([UInt8.ofNat (v * 4 + w / 16), UInt8.ofNat (w % 16 * 16 + x / 4),
      UInt8.ofNat (x % 4 * 64 + y)], true)
  | _ => ([], true)

/-- The last one to four places: two symbols at least, then padding up to four. -/
def decodeLast (offset : Nat) (tail : Bytes) : Except Fault Bytes := do
  let symbols := tail.takeWhile (· != pad)
  let padding := tail.dropWhile (· != pad)
  let vs ← values offset symbols
  if !padding.isEmpty && (symbols.length < 2 || padding.any (· != pad)) then
    throw (.invalidSymbol pad (offset + symbols.length))
  if symbols.length < 2 then
    throw (.invalidLength (offset + symbols.length))
  if tail.length ≠ 4 then
    throw .invalidPadding
  if (unpack vs).2 then
    return (unpack vs).1
  else
    throw (.invalidLastSymbol (symbols.getLast?.getD pad) (offset + symbols.length - 1))

/-- Four places at a time, of which only the last may hold padding. -/
def decodeFrom (offset : Nat) : Bytes → Except Fault Bytes
  | [] => .ok []
  | a :: b :: c :: d :: e :: rest => do
    let vs ← values offset [a, b, c, d]
    return (unpack vs).1 ++ (← decodeFrom (offset + 4) (e :: rest))
  | tail => decodeLast offset tail

/-- The byte that stands alone behind whole groups of four and is neither symbol nor padding,
such as a newline at the end of a text. -/
def strayLast? (text : Bytes) : Option UInt8 :=
  if text.length % 4 = 1 then text.getLast?.filter fun b => b != pad && (value? b).isNone
  else none

/-- The bytes of a text. A stray last byte is reported before anything else. -/
def decode (text : Bytes) : Except Fault Bytes :=
  match strayLast? text with
  | some b => .error (.invalidSymbol b (text.length - 1))
  | none => decodeFrom 0 text

end AccessControl.Base64
