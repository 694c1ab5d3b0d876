import AccessControl.Text.Ascii

/-! Numbers as bytes in either order. -/

namespace AccessControl

namespace LittleEndian

/-- The number whose bytes are given, least significant first. -/
def toNat (bytes : Bytes) : Nat := bytes.foldr (fun b n => n * 256 + b.toNat) 0

/-- The last `count` bytes of a number, least significant first. -/
def ofNat : Nat → Nat → Bytes
  | 0, _ => []
  | count + 1, n => UInt8.ofNat n :: ofNat count (n / 256)

theorem length_ofNat (count n : Nat) : (ofNat count n).length = count := by
  induction count generalizing n with
  | zero => rfl
  | succ count ih => simp [ofNat, ih]

end LittleEndian

namespace BigEndian

/-- The number whose bytes are given, most significant first. -/
def toNat (bytes : Bytes) : Nat := bytes.foldl (fun n b => n * 256 + b.toNat) 0

/-- The last `count` bytes of a number, most significant first. -/
def ofNat (count n : Nat) : Bytes := (LittleEndian.ofNat count n).reverse

theorem length_ofNat (count n : Nat) : (ofNat count n).length = count := by
  simp [ofNat, LittleEndian.length_ofNat]

end BigEndian

end AccessControl
