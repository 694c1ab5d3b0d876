/-!
The shortest decimal of a binary64 number: the fewest digits that read back as the same number,
and of those the nearest to it. The number is taken apart into an integer times a power of two, and
everything is computed on integers.
-/

namespace AccessControl.Decimal

/-! ### Binary numbers -/

/-- A finite binary64 number without its sign, `mantissa * 2 ^ (exponent - 1074)`. `low` is the
distance to the lower end of the numbers that round to it, in quarters of a unit of the mantissa;
the distance to the upper end is always two quarters. -/
structure Binary where
  mantissa : Nat
  exponent : Nat
  low : Nat

/-- The number that the lower 63 bits of an encoding stand for. -/
def Binary.ofBits (bits : UInt64) : Binary :=
  let fraction := (bits &&& 0xFFFFFFFFFFFFF).toNat
  let exponent := (bits >>> 52 &&& 0x7FF).toNat
  if exponent = 0 then ⟨fraction, 0, 2⟩
  else ⟨0x10000000000000 + fraction, exponent - 1, if fraction = 0 ∧ 1 < exponent then 1 else 2⟩

/-! ### Decimal grids -/

/-- A positive decimal, `digits * 10 ^ exponent`. -/
structure Digits where
  digits : Nat
  exponent : Int
  deriving DecidableEq

/-- Quarters of a unit of the mantissa, as a fraction. -/
def quarters (b : Binary) (count : Nat) : Nat × Nat := (count <<< b.exponent, 4 <<< 1074)

/-- A fraction divided by a power of ten. -/
def scale (x : Nat × Nat) (exponent : Int) : Nat × Nat :=
  if 0 ≤ exponent then (x.1, x.2 * Nat.pow 10 exponent.toNat)
  else (x.1 * Nat.pow 10 (-exponent).toNat, x.2)

/-- The exponent of the first decimal digit of a positive fraction. -/
def leading (x : Nat × Nat) : Int :=
  if x.2 ≤ x.1 then (Nat.toDigits 10 (x.1 / x.2)).length - 1
  else -(Nat.toDigits 10 ((x.2 - 1) / x.1)).length

/-- Whether the whole number `d` of units of ten to `exponent` rounds to the number. The two ends
count for even mantissas only. -/
def readsBack (b : Binary) (exponent : Int) (d : Nat) : Bool :=
  let low := scale (quarters b (4 * b.mantissa - b.low)) exponent
  let high := scale (quarters b (4 * b.mantissa + 2)) exponent
  if b.mantissa % 2 = 0 then low.1 ≤ d * low.2 && d * high.2 ≤ high.1
  else low.1 < d * low.2 && d * high.2 < high.1

/-- Of the two multiples of ten to `exponent` next to the number, the one that reads back; of two,
the nearer; of two equally near, the even one. -/
def onGrid? (b : Binary) (exponent : Int) : Option Nat :=
  let value := scale (quarters b (4 * b.mantissa)) exponent
  let below := value.1 / value.2
  let twice := 2 * (value.1 % value.2)
  let above := decide (value.2 < twice) || (decide (twice = value.2) && below % 2 == 1)
  match readsBack b exponent below, readsBack b exponent (below + 1) with
  | true, true => some (if above then below + 1 else below)
  | true, false => some below
  | false, true => some (below + 1)
  | false, false => none

/-- The first hit on the grids of so many more digits, the next one having exponent `exponent`. -/
def search (b : Binary) : Nat → Int → Digits
  | 0, exponent => ⟨(scale (quarters b (4 * b.mantissa)) exponent).1, exponent⟩
  | count + 1, exponent =>
    match onGrid? b exponent with
    | some digits => ⟨digits, exponent⟩
    | none => search b count (exponent - 1)

/-- The digits without zeros at the end. -/
def stripZeros : Nat → Digits → Digits
  | 0, d => d
  | count + 1, d =>
    if d.digits % 10 = 0 ∧ d.digits ≠ 0 then stripZeros count ⟨d.digits / 10, d.exponent + 1⟩
    else d

/-- The shortest decimal of a positive number. Seventeen digits are always enough. -/
def shortest (b : Binary) : Digits :=
  stripZeros 18 (search b 17 (leading (quarters b (4 * b.mantissa))))

/-! ### Layout -/

/-- How a decimal is laid out. -/
structure Layout where
  /-- The exponents of the first digit that are written out without an exponent. -/
  leastPositional : Int
  greatestPositional : Int
  /-- What marks an exponent that is not negative, and one that is. -/
  positiveMark : String
  negativeMark : String

/-- Text with a point after its first digit, if there are more. -/
def pointed (digits : String) : String :=
  if digits.length ≤ 1 then digits
  else String.ofList (digits.toList.take 1) ++ "." ++ String.ofList (digits.toList.drop 1)

/-- Zeros in a row. -/
def zeros (count : Nat) : String := String.ofList (List.replicate count '0')

/-- The text of a positive decimal. Whole numbers end in a point and a zero. -/
def Layout.render (layout : Layout) (d : Digits) : String :=
  let digits := toString d.digits
  let first := d.exponent + digits.length - 1
  if layout.leastPositional ≤ first ∧ first ≤ layout.greatestPositional then
    if 0 ≤ d.exponent then digits ++ zeros d.exponent.toNat ++ ".0"
    else if 0 ≤ first then
      String.ofList (digits.toList.take (first.toNat + 1)) ++ "." ++
        String.ofList (digits.toList.drop (first.toNat + 1))
    else "0." ++ zeros ((-first).toNat - 1) ++ digits
  else
    pointed digits ++ (if 0 ≤ first then layout.positiveMark else layout.negativeMark) ++
      toString first.natAbs

/-- The text of a finite number, zero and sign included. -/
def Layout.renderBits (layout : Layout) (bits : UInt64) : String :=
  let b := Binary.ofBits bits
  (if bits >>> 63 = 1 then "-" else "") ++
    (if b.mantissa = 0 then "0.0" else layout.render (shortest b))

end AccessControl.Decimal
