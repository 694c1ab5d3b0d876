import AccessControl.Digest.Blake3
import AccessControl.Text.Hex
import AccessControl.Text.Utf8

/-!
The key under which a successful check is remembered. It is a keyed digest of the secret and the
stored token, each with its length in front, so that no two pairs are written alike and the cache
holds no secret.
-/

namespace AccessControl

/-- The key of a pair of secret and stored token. -/
structure CacheKey where
  bytes : Bytes
  deriving DecidableEq

namespace CacheKey

/-- What every digested message begins with. -/
def domain : String := "gatekeep-v0-credential-cache"

/-- A pair of byte strings, each behind its length in eight bytes. -/
def pairBytes (secret token : Bytes) : Bytes :=
  BigEndian.ofNat 8 secret.length ++ secret ++ (BigEndian.ofNat 8 token.length ++ token)

/-- The key of a pair, under a secret of 32 bytes that each verifier draws for itself. -/
def derive (keySecret secret token : Bytes) : CacheKey :=
  ⟨Blake3.keyedDigest keySecret (Utf8.encode domain ++ pairBytes secret token)⟩

/-- The key in full. -/
def hex (key : CacheKey) : String := Hex.encode key.bytes

/-- The first eight bytes: enough to tell keys apart in a log. -/
def brief (key : CacheKey) : String := Hex.encode (key.bytes.take 8)

/-- The key as it is shown. -/
def describe (key : CacheKey) : String := "CredentialKey(" ++ key.brief ++ ")"

end CacheKey

end AccessControl
