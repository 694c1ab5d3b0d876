import AccessControl.Credential.CacheKey

/-!
Reading a pair of byte strings back from its encoding.

Each part of a pair stands behind its length, so where a part ends is said before it begins, and
what the part holds has no say in it. A reader that knows nothing but the encoding therefore finds
the pair at the front of any byte string that begins with it (`readPair_pairBytes_append`). Two
pairs at the front of one byte string are then the same pair, and so are two pairs with one message.

Main statement: `pairBytes_prefix_free`.
-/

namespace AccessControl

/-! ### Numbers in bytes -/

/-- A number that fits into some bytes is read back from them. -/
theorem LittleEndian.toNat_ofNat {count n : Nat} (h : n < Nat.pow 256 count) :
    toNat (ofNat count n) = n := by
  induction count generalizing n with
  | zero => exact (Nat.lt_one_iff.mp h).symm
  | succ count ih =>
      have hrest : n / 256 < Nat.pow 256 count := Nat.div_lt_of_lt_mul (Nat.mul_comm _ 256 ▸ h)
      calc toNat (ofNat (count + 1) n)
          = toNat (ofNat count (n / 256)) * 256 + (UInt8.ofNat n).toNat := rfl
        _ = n / 256 * 256 + n % 256 := by rw [ih hrest, UInt8.toNat_ofNat']
        _ = n := Nat.div_add_mod' n 256

theorem BigEndian.toNat_ofNat {count n : Nat} (h : n < Nat.pow 256 count) :
    toNat (ofNat count n) = n := by
  rw [toNat, ofNat, List.foldl_reverse]
  exact LittleEndian.toNat_ofNat h

namespace CacheKey

variable {secret token bytes rest : Bytes} {s₁ t₁ s₂ t₂ : Bytes}

/-! ### One part -/

/-- A byte string behind its length in eight bytes. -/
def framed (bytes : Bytes) : Bytes := BigEndian.ofNat 8 bytes.length ++ bytes

/-- The byte string at the front that stands behind its length, and what follows it. -/
def readFramed (bytes : Bytes) : Option (Bytes × Bytes) :=
  let length := BigEndian.toNat (bytes.take 8)
  let rest := bytes.drop 8
  if 8 ≤ bytes.length ∧ length ≤ rest.length then some (rest.take length, rest.drop length)
  else none

/-- The length says where a part ends, whatever the part holds and whatever follows it. -/
theorem readFramed_append (h : bytes.length < UInt64.size) (rest : Bytes) :
    readFramed (framed bytes ++ rest) = some (bytes, rest) := by
  have hfield : (BigEndian.ofNat 8 bytes.length).length = 8 := BigEndian.length_ofNat 8 _
  have htake : (framed bytes ++ rest).take 8 = BigEndian.ofNat 8 bytes.length := by
    rw [framed, List.append_assoc, List.take_left' hfield]
  have hdrop : (framed bytes ++ rest).drop 8 = bytes ++ rest := by
    rw [framed, List.append_assoc, List.drop_left' hfield]
  have hlong : 8 ≤ (framed bytes ++ rest).length ∧ bytes.length ≤ (bytes ++ rest).length := by
    simp only [framed, List.length_append, hfield]
    omega
  have hvalue : BigEndian.toNat (BigEndian.ofNat 8 bytes.length) = bytes.length :=
    BigEndian.toNat_ofNat (Nat.lt_of_lt_of_eq h rfl)
  unfold readFramed
  simp only [htake, hdrop, hvalue, if_pos hlong, List.take_left, List.drop_left]

/-! ### Pairs -/

/-- The pair at the front of a byte string, and what follows it. -/
def readPair (bytes : Bytes) : Option ((Bytes × Bytes) × Bytes) := do
  let (secret, bytes) ← readFramed bytes
  let (token, bytes) ← readFramed bytes
  return ((secret, token), bytes)

/-- The lengths of both parts fit into the eight bytes that are there for them. -/
structure Writable (secret token : Bytes) : Prop where
  secret : secret.length < UInt64.size
  token : token.length < UInt64.size

theorem pairBytes_eq (secret token : Bytes) :
    pairBytes secret token = framed secret ++ framed token := rfl

theorem readPair_pairBytes_append (h : Writable secret token) (rest : Bytes) :
    readPair (pairBytes secret token ++ rest) = some ((secret, token), rest) := by
  rw [readPair, pairBytes_eq, List.append_assoc, readFramed_append h.secret]
  simp only [Option.bind_eq_bind, Option.bind_some, readFramed_append h.token]
  rfl

/-- No encoding continues another one. -/
theorem eq_of_pairBytes_prefix (h₁ : Writable s₁ t₁) (h₂ : Writable s₂ t₂)
    (hfront : pairBytes s₁ t₁ <+: pairBytes s₂ t₂) : s₁ = s₂ ∧ t₁ = t₂ := by
  obtain ⟨rest, hrest⟩ := hfront
  have hread := readPair_pairBytes_append h₁ rest
  rw [hrest, ← List.append_nil (pairBytes s₂ t₂), readPair_pairBytes_append h₂ []] at hread
  cases hread
  exact ⟨rfl, rfl⟩

/-! ### Messages -/

/-- What the digest of a pair is taken of. -/
def message (secret token : Bytes) : Bytes := Utf8.encode domain ++ pairBytes secret token

theorem derive_eq (keySecret secret token : Bytes) :
    derive keySecret secret token = ⟨Blake3.keyedDigest keySecret (message secret token)⟩ := rfl

/-- The domain stands in front of every message, so it is no part of what tells messages apart. -/
theorem message_prefix_iff :
    message s₁ t₁ <+: message s₂ t₂ ↔ pairBytes s₁ t₁ <+: pairBytes s₂ t₂ :=
  List.prefix_append_right_inj _

/-- **Encodings of pairs are uniquely decodable.** The pair is read back from every byte string that
begins with its encoding. No encoding is the front of the encoding of another pair, so different
pairs have different encodings; and the messages that keys are digests of differ with them. -/
theorem pairBytes_prefix_free (h₁ : Writable s₁ t₁) (h₂ : Writable s₂ t₂) :
    (∀ rest, readPair (pairBytes s₁ t₁ ++ rest) = some ((s₁, t₁), rest)) ∧
    (pairBytes s₁ t₁ <+: pairBytes s₂ t₂ ↔ s₁ = s₂ ∧ t₁ = t₂) ∧
    (pairBytes s₁ t₁ = pairBytes s₂ t₂ ↔ s₁ = s₂ ∧ t₁ = t₂) ∧
    (message s₁ t₁ = message s₂ t₂ ↔ s₁ = s₂ ∧ t₁ = t₂) ∧
    ∀ keySecret, derive keySecret s₁ t₁ = ⟨Blake3.keyedDigest keySecret (message s₁ t₁)⟩ := by
  have hfront : pairBytes s₁ t₁ <+: pairBytes s₂ t₂ → s₁ = s₂ ∧ t₁ = t₂ :=
    eq_of_pairBytes_prefix h₁ h₂
  refine ⟨readPair_pairBytes_append h₁, ⟨hfront, ?_⟩, ⟨?_, ?_⟩, ⟨?_, ?_⟩, fun _ => derive_eq _ _ _⟩
  · rintro ⟨rfl, rfl⟩
    exact List.prefix_refl _
  · intro hsame
    exact hfront (hsame ▸ List.prefix_refl _)
  · rintro ⟨rfl, rfl⟩
    rfl
  · intro hsame
    exact hfront (message_prefix_iff.mp (hsame ▸ List.prefix_refl _))
  · rintro ⟨rfl, rfl⟩
    rfl

/-- A secret that goes on like the length and the bytes of a token is not taken for another pair. -/
theorem no_prefix_of_imitatedLength :
    Writable [97] [98] ∧ Writable [97, 0, 0, 0, 0, 0, 0, 0, 1, 98] [] ∧
      ¬ pairBytes [97] [98] <+: pairBytes [97, 0, 0, 0, 0, 0, 0, 0, 1, 98] [] ∧
      message [97] [98] ≠ message [97, 0, 0, 0, 0, 0, 0, 0, 1, 98] [] := by
  have hshort : Writable [97] [98] := ⟨by decide, by decide⟩
  have hlong : Writable [97, 0, 0, 0, 0, 0, 0, 0, 1, 98] [] := ⟨by decide, by decide⟩
  have hne : ¬ (([97] : Bytes) = [97, 0, 0, 0, 0, 0, 0, 0, 1, 98] ∧ ([98] : Bytes) = []) := by
    decide
  obtain ⟨-, hfront, -, hmessage, -⟩ := pairBytes_prefix_free hshort hlong
  exact ⟨hshort, hlong, fun h => hne (hfront.mp h), fun h => hne (hmessage.mp h)⟩

end CacheKey

end AccessControl
