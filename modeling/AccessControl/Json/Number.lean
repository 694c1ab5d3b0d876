import AccessControl.Json.Token

/-!
Numbers of a document. `readNumeral` reads the written form; `Numeral.number` says what it stands
for: an integer of 64 bits where the form is that of an integer and the value fits, and a binary64
number otherwise.
-/

namespace AccessControl.Json

/-! ### The written form -/

/-- A number as it is written. -/
structure Numeral where
  negative : Bool
  whole : Bytes
  fraction : Option Bytes
  /-- Whether the exponent is negative, and its digits. -/
  exponent : Option (Bool × Bytes)

/-- One digit or more. `ended` is the fault where there is nothing at all. -/
def readDigits (ended : Fault) : Bytes → Except Failure (Bytes × Bytes)
  | [] => .error ⟨ended, []⟩
  | b :: rest =>
    if Ascii.isDigit b then
      .ok (b :: rest.takeWhile Ascii.isDigit, rest.dropWhile Ascii.isDigit)
    else .error ⟨.invalidNumber, rest⟩

/-- The digits before the point. A zero stands alone. -/
def readWhole (ended : Fault) (bytes : Bytes) : Except Failure (Bytes × Bytes) :=
  match bytes with
  | Ascii.zero :: rest =>
    if (rest.headD Ascii.space |> Ascii.isDigit) then .error (.atNext .invalidNumber rest)
    else .ok ([Ascii.zero], rest)
  | _ => readDigits ended bytes

/-- The digits behind a point, if there is one. -/
def readFraction (ended : Fault) (bytes : Bytes) : Except Failure (Option Bytes × Bytes) :=
  match bytes with
  | Ascii.point :: rest =>
    match readDigits ended rest with
    | .error failure => .error failure
    | .ok (digits, rest) => .ok (some digits, rest)
  | _ => .ok (none, bytes)

/-- Whether the sign in front of an exponent is a minus, and what follows the sign. -/
def readSign : Bytes → Bool × Bytes
  | Ascii.plus :: rest => (false, rest)
  | Ascii.minus :: rest => (true, rest)
  | bytes => (false, bytes)

/-- The exponent, if there is one. -/
def readExponent (ended : Fault) (bytes : Bytes) :
    Except Failure (Option (Bool × Bytes) × Bytes) :=
  match bytes with
  | [] => .ok (none, [])
  | b :: rest =>
    if b = 0x65 || b = 0x45 then
      match readDigits ended (readSign rest).2 with
      | .error failure => .error failure
      | .ok (digits, after) => .ok (some ((readSign rest).1, digits), after)
    else .ok (none, bytes)

/-- A number behind its sign. -/
def readUnsignedNumeral (ended : Fault) (negative : Bool) (bytes : Bytes) :
    Except Failure (Numeral × Bytes) :=
  match readWhole ended bytes with
  | .error failure => .error failure
  | .ok (whole, rest) =>
    match readFraction ended rest with
    | .error failure => .error failure
    | .ok (fraction, rest) =>
      match readExponent ended rest with
      | .error failure => .error failure
      | .ok (exponent, rest) => .ok (⟨negative, whole, fraction, exponent⟩, rest)

/-- A number. -/
def readNumeral (ended : Fault) (bytes : Bytes) : Except Failure (Numeral × Bytes) :=
  match bytes with
  | Ascii.minus :: rest => readUnsignedNumeral ended true rest
  | _ => readUnsignedNumeral ended false bytes

/-- Whether a number begins with a byte. -/
def beginsNumber (b : UInt8) : Bool := b == Ascii.minus || Ascii.isDigit b

theorem length_readDigits_lt {ended : Fault} {bytes digits rest : Bytes}
    (h : readDigits ended bytes = .ok (digits, rest)) : rest.length < bytes.length := by
  unfold readDigits at h
  split at h
  · cases h
  · rename_i b more
    split at h
    · cases h
      have := (List.dropWhile_sublist (l := more) Ascii.isDigit).length_le
      simp only [List.length_cons]
      omega
    · cases h

theorem length_readWhole_lt {ended : Fault} {bytes digits rest : Bytes}
    (h : readWhole ended bytes = .ok (digits, rest)) : rest.length < bytes.length := by
  unfold readWhole at h
  split at h
  · split at h
    · cases h
    · cases h; exact Nat.lt_succ_self _
  · exact length_readDigits_lt h

theorem length_readFraction_le {ended : Fault} {bytes rest : Bytes} {fraction : Option Bytes}
    (h : readFraction ended bytes = .ok (fraction, rest)) : rest.length ≤ bytes.length := by
  unfold readFraction at h
  split at h
  · split at h
    · cases h
    · rename_i hdigits
      cases h
      have := length_readDigits_lt hdigits
      simp only [List.length_cons]
      omega
  · cases h; exact Nat.le_refl _

theorem length_readSign_le (bytes : Bytes) : (readSign bytes).2.length ≤ bytes.length := by
  unfold readSign
  split <;> simp

theorem length_readExponent_le {ended : Fault} {bytes rest : Bytes}
    {exponent : Option (Bool × Bytes)} (h : readExponent ended bytes = .ok (exponent, rest)) :
    rest.length ≤ bytes.length := by
  unfold readExponent at h
  split at h
  · cases h; exact Nat.le_refl _
  · rename_i b more
    split at h
    · split at h
      · cases h
      · rename_i hdigits
        cases h
        have := length_readDigits_lt hdigits
        have := length_readSign_le more
        simp only [List.length_cons]
        omega
    · cases h; exact Nat.le_refl _

theorem length_readUnsignedNumeral_lt {ended : Fault} {negative : Bool} {bytes rest : Bytes}
    {numeral : Numeral} (h : readUnsignedNumeral ended negative bytes = .ok (numeral, rest)) :
    rest.length < bytes.length := by
  unfold readUnsignedNumeral at h
  split at h
  · cases h
  · rename_i hwhole
    split at h
    · cases h
    · rename_i hfraction
      split at h
      · cases h
      · rename_i hexponent
        cases h
        have := length_readWhole_lt hwhole
        have := length_readFraction_le hfraction
        have := length_readExponent_le hexponent
        omega

theorem length_readNumeral_lt {ended : Fault} {bytes rest : Bytes} {numeral : Numeral}
    (h : readNumeral ended bytes = .ok (numeral, rest)) : rest.length < bytes.length := by
  unfold readNumeral at h
  split at h
  · exact Nat.lt_succ_of_lt (length_readUnsignedNumeral_lt h)
  · exact length_readUnsignedNumeral_lt h

/-! ### The value -/

/-- A number of a document. -/
inductive Number
  | unsigned (value : Nat)
  /-- An integer below zero, without its sign. -/
  | negative (magnitude : Nat)
  /-- Any other number, as the bits of its binary64 encoding. -/
  | float (bits : UInt64)
  deriving DecidableEq

def Number.found : Number → Found
  | unsigned value => .unsigned value
  | negative magnitude => .negative magnitude
  | float bits => .float bits

/-- The largest unsigned integer. -/
def maxUnsigned : Nat := UInt64.size - 1

/-- The magnitude of the least signed integer. -/
def maxNegative : Nat := UInt64.size / 2

/-- The largest exponent that is kept. -/
def maxExponent : Nat := UInt32.size / 2 - 1

/-- Digits put behind a number for as long as it stays within a limit, and the digits left. -/
def gather (limit : Nat) : Nat → Bytes → Nat × Bytes
  | value, [] => (value, [])
  | value, digit :: rest =>
    if value * 10 + Ascii.digitValue digit ≤ limit then
      gather limit (value * 10 + Ascii.digitValue digit) rest
    else (value, digit :: rest)

/-- A number divided by a power of ten, in steps that binary64 can hold. -/
def dividedBy (value : Float) (power : Nat) : Float :=
  if power ≤ 308 then value / Float.ofScientific 1 false power
  else if value == 0 then value
  else dividedBy (value / Float.ofScientific 1 false 308) (power - 308)
termination_by power

/-- A number times a power of ten; nothing if it is too large for binary64. -/
def timesPower? (value : Float) (power : Int) : Option Float :=
  if power < 0 then some (dividedBy value power.natAbs)
  else if 308 < power then (if value == 0 then some value else none)
  else
    let product := value * Float.ofScientific 1 false power.natAbs
    if product.isInf then none else some product

/-- A number with its sign. -/
def signed (negative : Bool) (value : Float) : Number :=
  .float (if negative then -value else value).toBits

/-- The binary64 number of digits, a power of ten beside them, and a written exponent. An exponent
that is too large for any digits but zeros is noticed at the digit that makes it so. -/
def floatNumber (negative : Bool) (digits : Nat) (power : Int) (exponent : Option (Bool × Bytes))
    (rest : Bytes) : Except Failure Number :=
  let value := (UInt64.ofNat digits).toFloat
  let (below, written) := exponent.getD (false, [])
  let (magnitude, left) := gather maxExponent 0 written
  if !left.isEmpty then
    if digits ≠ 0 && !below then .error ⟨.numberOutOfRange, left.drop 1 ++ rest⟩
    else .ok (signed negative 0)
  else
    match timesPower? value (if below then power - magnitude else power + magnitude) with
    | some result => .ok (signed negative result)
    | none => .error ⟨.numberOutOfRange, rest⟩

/-- What a written number stands for; `rest` is what follows it. Digits count for as long as they
fit into 64 bits; of those that do not, the ones before the point count as powers of ten and the
ones behind it for nothing. -/
def Numeral.number (n : Numeral) (rest : Bytes) : Except Failure Number :=
  let (whole, left) := gather maxUnsigned 0 n.whole
  match n.fraction, n.exponent, left with
  | none, none, [] =>
    if !n.negative then .ok (.unsigned whole)
    else if 0 < whole && whole ≤ maxNegative then .ok (.negative whole)
    else .ok (signed true (UInt64.ofNat whole).toFloat)
  | fraction, exponent, left =>
    let fraction := fraction.getD []
    let (digits, unused) := gather maxUnsigned whole fraction
    let places : Int := fraction.length - unused.length
    floatNumber n.negative digits (left.length - places) exponent rest

/-- A number and what it stands for. -/
def readNumber (bytes : Bytes) : Except Failure (Number × Bytes) :=
  match readNumeral .endInValue bytes with
  | .error failure => .error failure
  | .ok (numeral, rest) =>
    match numeral.number rest with
    | .error failure => .error failure
    | .ok number => .ok (number, rest)

theorem length_readNumber_lt {bytes rest : Bytes} {number : Number}
    (h : readNumber bytes = .ok (number, rest)) : rest.length < bytes.length := by
  unfold readNumber at h
  split at h
  · cases h
  · rename_i hnumeral
    split at h
    · cases h
    · cases h
      exact length_readNumeral_lt hnumeral

end AccessControl.Json
