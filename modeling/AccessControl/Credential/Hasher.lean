import AccessControl.Credential.Header

/-!
Hashers. A hasher is given a secret and, to check it, the text of an existing token; it answers
with a token or an error and may change a state of its own, so that counting, drawing salts and
failing now and then are all hashers. `Policy.hasher` is the one that makes crypt tokens.
-/

namespace AccessControl

/-- A salted one-way hash with a state. Without an existing token it makes a fresh one; with one it
derives the token again from the secret and what that token records. -/
structure Hasher (σ : Type) where
  crypt : Bytes → Option String → σ → Except HashError String × σ

namespace Hasher

variable {σ : Type}

/-- The hasher, with the number of its calls kept beside its state. -/
def counting (hasher : Hasher σ) : Hasher (Nat × σ) where
  crypt secret existing state :=
    let (answer, rest) := hasher.crypt secret existing state.2
    (answer, state.1 + 1, rest)

end Hasher

/-! ### Salts -/

/-- A source of salt characters, given by their values. -/
structure SaltSource (σ : Type) where
  next : σ → Fin 64 × σ

/-- So many characters drawn from a source. -/
def SaltSource.draw {σ : Type} (source : SaltSource σ) : Nat → σ → List Char × σ
  | 0, state => ([], state)
  | count + 1, state =>
    let (value, state) := source.next state
    let (rest, state) := source.draw count state
    (ShaCrypt.alphabet.getD value '.' :: rest, state)

/-! ### Crypt tokens -/

/-- How fresh tokens are made. -/
structure Policy where
  rounds : Nat
  saltLength : Nat
  deriving DecidableEq

namespace Policy

/-- The salt length of a new policy. -/
def defaultSaltLength : Nat := 8

/-- Default rounds, which are not written, and a salt of eight characters. -/
def default : Policy := ⟨Header.defaultRounds, defaultSaltLength⟩

/-- The policy with other rounds, taken into range. -/
def withRounds (policy : Policy) (rounds : Nat) : Policy :=
  { policy with rounds := Header.clampRounds rounds }

/-- The policy with another salt length, taken between one and the longest salt that is used. -/
def withSaltLength (policy : Policy) (length : Nat) : Policy :=
  { policy with saltLength := max 1 (min length ShaCrypt.saltMax) }

/-- The header of a fresh token. Rounds other than the default are written. -/
def header (policy : Policy) (salt : List Char) : Header :=
  ⟨.sha512, policy.rounds, policy.rounds != Header.defaultRounds, String.ofList salt⟩

/-- The policy as it is shown. -/
def describe (policy : Policy) : String :=
  "Sha512Crypt \x7b rounds: " ++ toString policy.rounds ++
    ", salt_len: " ++ toString policy.saltLength ++ " \x7d"

/-- The hasher of crypt tokens. It reads the header of an existing token, or draws a salt. -/
def hasher {σ : Type} (policy : Policy) (source : SaltSource σ) : Hasher σ where
  crypt secret existing state :=
    match existing with
    | some token => (Header.parse token >>= fun header => header.token secret, state)
    | none =>
      let (salt, state) := source.draw policy.saltLength state
      ((policy.header salt).token secret, state)

end Policy

end AccessControl
