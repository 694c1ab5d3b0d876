import AccessControl.Cache.Store

/-!
Expiry in machine words.

A span of time is held as whole seconds in 64 bits and a rest in 32. Its nanoseconds are taken
together in 128 bits and narrowed to 64, at the limit of the clock if they do not fit, and the time
since an entry was touched is a difference that stops at zero. Here every operation answers with a
fault where its result does not fit its word.

Main statement: `isExpired_eq`. Spans of as many seconds as 64 bits can hold never lead to a fault,
and the answer is what `Cache.isExpired` says of unbounded numbers.
-/

namespace AccessControl.ClockWords

/-- An operation on words whose result does not fit. -/
inductive Overflow
  | product
  | sum
  | difference
  deriving DecidableEq

open Duration (nanosPerSecond)

variable {width : Nat} {x y : BitVec width} {d : Duration}

/-! ### Operations that may have a fault -/

def product (x y : BitVec width) : Except Overflow (BitVec width) :=
  if x.umulOverflow y then .error .product else .ok (x * y)

def sum (x y : BitVec width) : Except Overflow (BitVec width) :=
  if x.uaddOverflow y then .error .sum else .ok (x + y)

def difference (x y : BitVec width) : Except Overflow (BitVec width) :=
  if x.usubOverflow y then .error .difference else .ok (x - y)

theorem product_of_fits (x y : BitVec width) (h : x.toNat * y.toNat < Nat.pow 2 width) :
    ∃ z, product x y = .ok z ∧ z.toNat = x.toNat * y.toNat := by
  have hfits : ¬x.umulOverflow y := fun hover => Nat.not_le.mpr h (of_decide_eq_true hover)
  exact ⟨x * y, if_neg hfits, BitVec.toNat_mul_of_not_umulOverflow hfits⟩

theorem sum_of_fits (x y : BitVec width) (h : x.toNat + y.toNat < Nat.pow 2 width) :
    ∃ z, sum x y = .ok z ∧ z.toNat = x.toNat + y.toNat := by
  have hfits : ¬x.uaddOverflow y := fun hover => Nat.not_le.mpr h (of_decide_eq_true hover)
  exact ⟨x + y, if_neg hfits, BitVec.toNat_add_of_not_uaddOverflow hfits⟩

theorem difference_of_le (h : y ≤ x) :
    ∃ z, difference x y = .ok z ∧ z.toNat = x.toNat - y.toNat := by
  have hfits : ¬x.usubOverflow y := fun hover => Nat.not_lt.mpr h (of_decide_eq_true hover)
  exact ⟨x - y, if_neg hfits, BitVec.toNat_sub_of_not_usubOverflow hfits⟩

/-! ### The nanoseconds of a span -/

/-- The nanoseconds of a span, in 128 bits. -/
def nanos (d : Duration) : Except Overflow (BitVec 128) := do
  let whole ← product ((BitVec.ofNat 64 d.seconds).setWidth 128)
    (BitVec.ofNat 128 nanosPerSecond)
  sum whole ((BitVec.ofNat 32 d.subsecond).setWidth 128)

/-- The same number in 64 bits, if it fits. -/
def narrow? (x : BitVec 128) : Option (BitVec 64) :=
  if x ≤ (BitVec.allOnes 64).setWidth 128 then some (x.setWidth 64) else none

/-- A span on the counter of 64 bits, which stops at its limit. -/
def reading (d : Duration) : Except Overflow (BitVec 64) := do
  return (narrow? (← nanos d)).getD (BitVec.allOnes 64)

/-- A number that fits its word is the same in a wider one. -/
theorem toNat_widened {n narrow wide : Nat} (hfits : n < Nat.pow 2 narrow) (hle : narrow ≤ wide) :
    ((BitVec.ofNat narrow n).setWidth wide).toNat = n := by
  rw [BitVec.toNat_setWidth_of_le hle, BitVec.toNat_ofNat]
  exact Nat.mod_eq_of_lt hfits

/-- The nanoseconds of a span of so many seconds fit. -/
theorem nanos_eq (h : d.seconds < UInt64.size) :
    ∃ total, nanos d = .ok total ∧ total.toNat = d.nanos := by
  have hrest : d.subsecond < nanosPerSecond := Nat.mod_lt _ (by decide)
  have hsplit : d.seconds * nanosPerSecond + d.subsecond = d.nanos :=
    Nat.div_add_mod' d.nanos nanosPerSecond
  have hseconds : ((BitVec.ofNat 64 d.seconds).setWidth 128).toNat = d.seconds :=
    toNat_widened h (by decide)
  have hsubsecond : ((BitVec.ofNat 32 d.subsecond).setWidth 128).toNat = d.subsecond :=
    toNat_widened (Nat.lt_trans hrest (by decide)) (by decide)
  have hscale : (BitVec.ofNat 128 nanosPerSecond).toNat = nanosPerSecond := rfl
  -- The largest number of seconds leaves room for another second.
  have hlargest : (UInt64.size - 1) * nanosPerSecond + nanosPerSecond < Nat.pow 2 128 := by decide
  have hproduct : d.seconds * nanosPerSecond ≤ (UInt64.size - 1) * nanosPerSecond :=
    Nat.mul_le_mul_right _ (Nat.le_sub_one_of_lt h)
  obtain ⟨whole, hwhole, hvalue⟩ := product_of_fits
    ((BitVec.ofNat 64 d.seconds).setWidth 128) (BitVec.ofNat 128 nanosPerSecond)
    (by rw [hseconds, hscale]; omega)
  rw [hseconds, hscale] at hvalue
  obtain ⟨total, htotal, hsum⟩ := sum_of_fits
    whole ((BitVec.ofNat 32 d.subsecond).setWidth 128)
    (by rw [hvalue, hsubsecond]; omega)
  refine ⟨total, ?_, ?_⟩
  · rw [nanos, hwhole]
    exact htotal
  · rw [hsum, hvalue, hsubsecond]
    exact hsplit

/-- Narrowing stops at the limit of the clock. -/
theorem toNat_narrow? (total : BitVec 128) :
    ((narrow? total).getD (BitVec.allOnes 64)).toNat = Clock.reading total.toNat := by
  have hlimit : ((BitVec.allOnes 64).setWidth 128).toNat = Clock.limit := rfl
  unfold narrow? Clock.reading
  split
  · next hfits =>
      have hle : total.toNat ≤ Clock.limit := hlimit ▸ BitVec.le_def.mp hfits
      have hlt : total.toNat < Nat.pow 2 64 := Nat.lt_of_le_of_lt hle (by decide)
      rw [Option.getD_some, BitVec.toNat_setWidth, Nat.min_eq_left hle]
      exact Nat.mod_eq_of_lt hlt
  · next hover =>
      have hlt : Clock.limit < total.toNat := hlimit ▸ BitVec.lt_def.mp (BitVec.not_le.mp hover)
      rw [Option.getD_none, Nat.min_eq_right (Nat.le_of_lt hlt)]
      rfl

/-- A span is read as the clock reads it. -/
theorem reading_eq (h : d.seconds < UInt64.size) :
    ∃ x, reading d = .ok x ∧ x.toNat = Clock.reading d.nanos := by
  obtain ⟨total, htotal, hvalue⟩ := nanos_eq h
  refine ⟨(narrow? total).getD (BitVec.allOnes 64), ?_, hvalue ▸ toNat_narrow? total⟩
  rw [reading, htotal]
  rfl

/-! ### Expiry -/

/-- The time since an entry was touched, which stops at zero. -/
def elapsedSince (now touched : BitVec 64) : Except Overflow (BitVec 64) :=
  if touched ≤ now then difference now touched else .ok 0

/-- Whether an entry that was touched at a reading has been idle for too long. -/
def isExpired (idle elapsed : Duration) (touched : BitVec 64) : Except Overflow Bool := do
  let limit ← reading idle
  let now ← reading elapsed
  return limit ≤ (← elapsedSince now touched)

theorem elapsedSince_eq (now touched : BitVec 64) :
    ∃ x, elapsedSince now touched = .ok x ∧ x.toNat = now.toNat - touched.toNat := by
  unfold elapsedSince
  split
  · next hle => exact difference_of_le hle
  · next hlate =>
      have hlt : now.toNat < touched.toNat := BitVec.lt_def.mp (BitVec.not_le.mp hlate)
      exact ⟨0, rfl, (Nat.sub_eq_zero_of_le (Nat.le_of_lt hlt)).symm⟩

/-- **Expiry in machine words has no fault, and is expiry of unbounded numbers.** -/
theorem isExpired_eq {κ ν : Type} {c : Cache κ ν} {e : Entry κ ν} {elapsed : Duration}
    {touched : BitVec 64} (hidle : c.bounds.idleTimeout.seconds < UInt64.size)
    (helapsed : elapsed.seconds < UInt64.size) (htouched : touched.toNat = e.touched) :
    isExpired c.bounds.idleTimeout elapsed touched = .ok (c.isExpired elapsed.nanos e) := by
  obtain ⟨limit, hlimit, hlimitValue⟩ := reading_eq hidle
  obtain ⟨now, hnow, hnowValue⟩ := reading_eq helapsed
  obtain ⟨since, hsince, hsinceValue⟩ := elapsedSince_eq now touched
  have hiff : limit ≤ since ↔
      c.bounds.idleReading ≤ Clock.reading elapsed.nanos - e.touched := by
    rw [BitVec.le_def, hlimitValue, hsinceValue, hnowValue, htouched]
    rfl
  rw [isExpired, hlimit, hnow]
  simp only [bind, pure, Except.bind, Except.pure, hsince, Cache.isExpired, hiff]

end AccessControl.ClockWords
