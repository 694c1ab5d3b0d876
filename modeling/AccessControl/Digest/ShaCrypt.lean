import AccessControl.Digest.Sha2

/-!
The digest text of a SHA-2 crypt token: a digest of a secret and a salt, repeated for a number of
rounds, and written six bits a character.

Main statement: `digestText_ne_nil`, the text is never empty.
-/

namespace AccessControl.ShaCrypt

/-- The digests that a token can be made with. -/
inductive Algorithm
  | sha256
  | sha512
  deriving DecidableEq

/-- The digest of a message. -/
def Algorithm.hash : Algorithm → Bytes → Bytes
  | .sha256 => Sha2.sha256
  | .sha512 => Sha2.sha512

/-! ### Rounds -/

/-- The fewest rounds that a digest is made with. -/
def roundsMin : Nat := 1000

/-- The most rounds that a digest is made with. -/
def roundsMax : Nat := 999999999

/-- The block, repeated and cut to a length. -/
def stretch (length : Nat) (block : Bytes) : Bytes :=
  ((List.replicate (length / block.length + 1) block).flatten).take length

/-- The bits of a number, lowest first; zero has none. -/
def lowBits (n : Nat) : List Bool :=
  if n = 0 then [] else (List.range (n.log2 + 1)).map n.testBit

/-- The digest that the rounds start from. -/
def initial (hash : Bytes → Bytes) (secret salt : Bytes) : Bytes :=
  let other := hash (secret ++ salt ++ secret)
  hash (secret ++ salt ++ stretch secret.length other ++
    (lowBits secret.length).flatMap fun bit => if bit then other else secret)

/-- The input of one round: the digest before it, on odd rounds last and on even ones first, the
salt unless three divides the round, and the secret. -/
def roundInput (secret salt : Bytes) (round : Nat) (digest : Bytes) : Bytes :=
  (if round % 2 = 1 then secret else digest) ++
  (if round % 3 ≠ 0 then salt else []) ++
  (if round % 7 ≠ 0 then secret else []) ++
  (if round % 2 = 1 then digest else secret)

/-- The digest after all rounds. Between rounds the secret and the salt are replaced by digests of
repetitions of them, cut to their lengths. -/
def digest (hash : Bytes → Bytes) (secret salt : Bytes) (rounds : Nat) : Bytes :=
  let first := initial hash secret salt
  let secretMix := stretch secret.length (hash (List.replicate secret.length secret).flatten)
  let saltCopies := 16 + (first.headD 0).toNat
  let saltMix := stretch salt.length (hash (List.replicate saltCopies salt).flatten)
  Nat.fold rounds (fun i _ c => hash (roundInput secretMix saltMix i c)) first

/-! ### Text -/

/-- The characters of salts and digests, by value. -/
def alphabet : List Char :=
  "./0123456789ABCDEFGHIJKLMNOPQRSTUVWXYZabcdefghijklmnopqrstuvwxyz".toList

/-- A number in so many characters of six bits, lowest bits first. -/
def sixBits : Nat → Nat → List Char
  | 0, _ => []
  | count + 1, n => alphabet.getD (n % 64) '.' :: sixBits count (n / 64)

/-- The bytes of a digest in groups, in the order in which they are written. -/
def Algorithm.groups : Algorithm → List (List Nat)
  | .sha256 =>
    [[0, 10, 20], [21, 1, 11], [12, 22, 2], [3, 13, 23], [24, 4, 14], [15, 25, 5], [6, 16, 26],
      [27, 7, 17], [18, 28, 8], [9, 19, 29], [31, 30]]
  | .sha512 =>
    [[0, 21, 42], [22, 43, 1], [44, 2, 23], [3, 24, 45], [25, 46, 4], [47, 5, 26], [6, 27, 48],
      [28, 49, 7], [50, 8, 29], [9, 30, 51], [31, 52, 10], [53, 11, 32], [12, 33, 54],
      [34, 55, 13], [56, 14, 35], [15, 36, 57], [37, 58, 16], [59, 17, 38], [18, 39, 60],
      [40, 61, 19], [62, 20, 41], [63]]

/-- A group of bytes, the first one highest, in one character more than it has bytes. -/
def groupText (digest : Bytes) (group : List Nat) : List Char :=
  sixBits (group.length + 1) (BigEndian.toNat (group.map fun i => digest.getD i 0))

/-- The longest part of a salt that is used. -/
def saltMax : Nat := 16

/-- The digest text of a secret. Of the salt, only the first bytes count. -/
def digestText (algorithm : Algorithm) (secret salt : Bytes) (rounds : Nat) : List Char :=
  algorithm.groups.flatMap
    (groupText (digest algorithm.hash secret (salt.take saltMax) rounds))

theorem digestText_ne_nil (algorithm : Algorithm) (secret salt : Bytes) (rounds : Nat) :
    digestText algorithm secret salt rounds ≠ [] := by
  cases algorithm <;> simp [digestText, Algorithm.groups, groupText, sixBits]

end AccessControl.ShaCrypt
