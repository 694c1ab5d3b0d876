import AccessControl.Credential.HashError
import AccessControl.Text.Utf8

/-!
Stored tokens, and their comparison.

Main statement: `sameBytes_iff`, the comparison that looks at every byte is equality.
-/

namespace AccessControl

/-- A stored token. Only its encoding has been checked; what it says is the hasher's business. -/
structure Token where
  text : String
  deriving DecidableEq

namespace Token

/-- The token that stored bytes hold. -/
def ofBytes (bytes : Bytes) : Except HashError Token :=
  match Utf8.decode? bytes with
  | some text => .ok ⟨text⟩
  | none => .error .invalidEncoding

/-- The bytes as stored. -/
def bytes (token : Token) : Bytes := Utf8.encode token.text

/-- What stands before the last dollar; nothing if there is none. -/
def beforeLastDollar (text : List Char) : List Char :=
  ((text.reverse.dropWhile (· != '$')).drop 1).reverse

/-- The token as it is shown: without what follows its last dollar. -/
def redacted (token : Token) : String :=
  "CryptToken(" ++ String.ofList (beforeLastDollar token.text.toList) ++ "$...)"

end Token

/-! ### Comparison -/

/-- The bits in which two byte strings differ, gathered over all places that both have. -/
def differingBits (a b : Bytes) : UInt8 :=
  (a.zip b).foldl (fun bits pair => bits ||| (pair.1 ^^^ pair.2)) 0

/-- Equality of byte strings that looks at every byte of strings of one length, wherever the first
difference lies. -/
def sameBytes (a b : Bytes) : Bool := a.length == b.length && differingBits a b == 0

theorem foldl_differing_eq_zero {pairs : List (UInt8 × UInt8)} {bits : UInt8} :
    pairs.foldl (fun bits pair => bits ||| (pair.1 ^^^ pair.2)) bits = 0 ↔
      bits = 0 ∧ ∀ pair ∈ pairs, pair.1 = pair.2 := by
  induction pairs generalizing bits with
  | nil => simp
  | cons pair rest ih =>
    rw [List.foldl_cons, ih, UInt8.or_eq_zero_iff, UInt8.xor_eq_zero_iff]
    simp [and_assoc]

theorem sameBytes_iff {a b : Bytes} : sameBytes a b = true ↔ a = b := by
  unfold sameBytes differingBits
  rw [Bool.and_eq_true, beq_iff_eq, beq_iff_eq, foldl_differing_eq_zero]
  constructor
  · rintro ⟨hlength, -, hpairs⟩
    induction a generalizing b with
    | nil => exact (List.length_eq_zero_iff.1 hlength.symm).symm
    | cons x rest ih =>
      cases b with
      | nil => simp at hlength
      | cons y more =>
        have hxy : x = y := hpairs (x, y) (by simp)
        rw [hxy, ih (by simpa using hlength) fun pair h => hpairs pair (by simp [h])]
  · rintro rfl
    refine ⟨rfl, rfl, ?_⟩
    induction a with
    | nil => simp
    | cons x rest ih => simpa using fun y z h => ih (y, z) h

end AccessControl
