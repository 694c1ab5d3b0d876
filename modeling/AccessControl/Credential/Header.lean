import AccessControl.Credential.HashError
import AccessControl.Digest.ShaCrypt
import AccessControl.Text.Utf8

/-!
The header of a crypt token, `$<tag>$[rounds=<n>$]<salt>`, and the token made under it. `parse`
reads the header from the front of any text and ignores what follows the salt, so that a bare
header and a whole token are read alike; `render` writes it, and `token` adds the digest.
-/

namespace AccessControl

open ShaCrypt (Algorithm)

/-- What a token says about how it was made. -/
structure Header where
  algorithm : Algorithm
  rounds : Nat
  /-- Whether the rounds are written. -/
  customRounds : Bool
  salt : String
  deriving DecidableEq

namespace Header

/-! ### Limits -/

/-- The rounds of a token that does not write them. -/
def defaultRounds : Nat := 5000

def minRounds : Nat := 1000

def maxRounds : Nat := 999999999

/-- Rounds raised or lowered into the range of a token's rounds. -/
def clampRounds (rounds : Nat) : Nat := max minRounds (min rounds maxRounds)

/-- The largest number that a rounds field may hold before it is clamped. -/
def maxWrittenRounds : Nat := UInt32.size - 1

/-- The tag of an algorithm, between its dollars. -/
def tag : Algorithm → String
  | .sha256 => "$5$"
  | .sha512 => "$6$"

/-- What a rounds field begins with. -/
def roundsField : String := "rounds="

/-- Whether a character may stand in a salt. -/
def isSaltChar (c : Char) : Bool := ShaCrypt.alphabet.elem c

/-- The header of chosen parts. Rounds are written when they are chosen. -/
def ofParts (algorithm : Algorithm) (rounds : Option Nat) (salt : String) : Header :=
  ⟨algorithm, rounds.getD defaultRounds, rounds.isSome, salt⟩

/-! ### Writing -/

/-- The text of a header. -/
def render (h : Header) : String :=
  if h.customRounds then tag h.algorithm ++ roundsField ++ toString h.rounds ++ "$" ++ h.salt
  else tag h.algorithm ++ h.salt

/-! ### Reading -/

/-- What is reported of a text with another tag: the tag, if the text has one. -/
def foreignTag : List Char → String
  | '$' :: rest =>
    if rest.elem '$' then String.ofList ('$' :: rest.takeWhile (· != '$') ++ ['$'])
    else "<untagged>"
  | _ => "<untagged>"

/-- The algorithm of a text, and what follows its tag. -/
def readTag (text : List Char) : Except HashError (Algorithm × List Char) :=
  match (tag .sha512).toList.isPrefixOf? text with
  | some rest => .ok (.sha512, rest)
  | none =>
    match (tag .sha256).toList.isPrefixOf? text with
    | some rest => .ok (.sha256, rest)
    | none => .error (.unsupported (foreignTag text))

/-- The number of a rounds field and what follows the field, if the text begins with one. The
field's name without digits and a dollar behind it is no field: those characters are salt. -/
def readRounds (text : List Char) : Except HashError (Option (Nat × List Char)) :=
  match roundsField.toList.isPrefixOf? text with
  | none => .ok none
  | some after =>
    let digits := after.takeWhile Char.isDigit
    match after.dropWhile Char.isDigit with
    | '$' :: rest =>
      if digits.isEmpty then .ok none
      else
        let written := Nat.ofDigitChars 10 digits 0
        if written ≤ maxWrittenRounds then .ok (some (clampRounds written, rest))
        else .error (.malformed s!"rounds out of range: {String.ofList digits}")
    | _ => .ok none

/-- The salt at the front of a text: as many salt characters as there are, up to the longest
salt that is used. -/
def readSalt (text : List Char) : Except HashError String :=
  match (text.takeWhile isSaltChar).take ShaCrypt.saltMax with
  | [] => .error (.malformed "missing salt")
  | salt => .ok (String.ofList salt)

/-- The header at the front of a text. -/
def parse (text : String) : Except HashError Header := do
  let (algorithm, rest) ← readTag text.toList
  match ← readRounds rest with
  | some (rounds, rest) => return ⟨algorithm, rounds, true, ← readSalt rest⟩
  | none => return ⟨algorithm, defaultRounds, false, ← readSalt rest⟩

/-! ### Hashing -/

/-- The token of a secret under a header. The header is taken as it is; the digest has bounds of its
own for the rounds that it is asked for. -/
def token (h : Header) (secret : Bytes) : Except HashError String :=
  if ShaCrypt.roundsMin ≤ h.rounds ∧ h.rounds ≤ ShaCrypt.roundsMax then
    let digest := ShaCrypt.digestText h.algorithm secret (Utf8.encode h.salt) h.rounds
    .ok (h.render ++ "$" ++ String.ofList digest)
  else
    .error (.primitive "RoundsError")

end Header

end AccessControl
