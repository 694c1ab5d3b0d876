import AccessControl.Text.Ascii

/-!
Text as bytes. `encode` writes a text, `decode?` reads it back and refuses everything that no text
is written as, and `decodeLossy` reads any byte string, with one replacement character for each
longest piece that starts a character and does not finish it.

Main statement: `decode?_eq_some_iff`, reading accepts exactly what writing produces.
-/

namespace AccessControl.Utf8

/-! ### Strict reading -/

/-- The bytes of a text. -/
def encode (text : String) : Bytes := text.toUTF8.data.toList

/-- The text that a byte string is the encoding of. -/
def decode? (bytes : Bytes) : Option String := String.fromUTF8? ⟨bytes.toArray⟩

theorem decode?_eq_some_iff {bytes : Bytes} {text : String} :
    decode? bytes = some text ↔ encode text = bytes := by
  unfold decode? encode String.fromUTF8?
  constructor
  · intro h
    split at h
    · cases h
      rfl
    · cases h
  · rintro rfl
    have hbytes : (⟨text.toUTF8.data.toList.toArray⟩ : ByteArray) = text.toByteArray := by
      simp
    have hvalid : (⟨text.toUTF8.data.toList.toArray⟩ : ByteArray).IsValidUTF8 := by
      rw [hbytes]
      exact text.isValidUTF8
    rw [dif_pos hvalid]
    cases text
    simp [String.fromUTF8]

theorem decode?_encode (text : String) : decode? (encode text) = some text :=
  decode?_eq_some_iff.2 rfl

/-! ### Lossy reading -/

/-- A character that has been begun: how many bytes it lacks, the range of the next one, and the
value of the bits read so far. -/
structure Pending where
  lacking : Nat
  low : UInt8
  high : UInt8
  bits : Nat

/-- What stands for a piece that is no character. -/
def replacement : Char := '\uFFFD'

/-- What the first byte of a character of several bytes leaves to be read. The narrower ranges
keep out overlong forms, surrogates and values past the last character. -/
def Pending.ofLead? (b : UInt8) : Option Pending :=
  if 0xC2 ≤ b && b ≤ 0xDF then some ⟨1, 0x80, 0xBF, b.toNat - 0xC0⟩
  else if b == 0xE0 then some ⟨2, 0xA0, 0xBF, 0⟩
  else if b == 0xED then some ⟨2, 0x80, 0x9F, 0xD⟩
  else if 0xE1 ≤ b && b ≤ 0xEF then some ⟨2, 0x80, 0xBF, b.toNat - 0xE0⟩
  else if b == 0xF0 then some ⟨3, 0x90, 0xBF, 0⟩
  else if 0xF1 ≤ b && b ≤ 0xF3 then some ⟨3, 0x80, 0xBF, b.toNat - 0xF0⟩
  else if b == 0xF4 then some ⟨3, 0x80, 0x8F, 4⟩
  else none

/-- One byte where a character may begin: what it gives, and what it leaves to be read. -/
def start (b : UInt8) : List Char × Option Pending :=
  if b < 0x80 then ([Char.ofNat b.toNat], none)
  else match Pending.ofLead? b with
    | some pending => ([], some pending)
    | none => ([replacement], none)

/-- One byte after what has been begun. A byte that cannot continue it ends it with a replacement
and is then read as a beginning. -/
def feed : Option Pending → UInt8 → List Char × Option Pending
  | none, b => start b
  | some p, b =>
    if p.low ≤ b && b ≤ p.high then
      let bits := p.bits * 64 + (b.toNat - 0x80)
      if p.lacking ≤ 1 then ([Char.ofNat bits], none)
      else ([], some ⟨p.lacking - 1, 0x80, 0xBF, bits⟩)
    else
      (replacement :: (start b).1, (start b).2)

/-- The characters of a byte string, read on from what has been begun. -/
def lossyFrom : Option Pending → Bytes → List Char
  | none, [] => []
  | some _, [] => [replacement]
  | pending, b :: rest => (feed pending b).1 ++ lossyFrom (feed pending b).2 rest

/-- The text of a byte string, with a replacement for each piece that is no character. -/
def decodeLossy (bytes : Bytes) : String := String.ofList (lossyFrom none bytes)

end AccessControl.Utf8
