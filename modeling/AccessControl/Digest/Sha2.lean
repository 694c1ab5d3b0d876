import AccessControl.Digest.Words

/-!
The SHA-2 family. A member is given by the words that it works on, its rotations and its constants
(`Member`). `digest` is the same for all of them: pad, cut into blocks of sixteen words, and mix
each block into eight words of state.
-/

namespace AccessControl.Sha2

/-! ### The parts in which members differ -/

/-- A member of the family, working on the words `α`. -/
class Member (α : Type) extends Add α, AndOp α, XorOp α, Complement α where
  wordBytes : Nat
  zero : α
  /-- The word moved up by one byte, with a byte put in below. -/
  shiftIn : α → UInt8 → α
  /-- The byte that has so many bytes below it. -/
  byteAbove : α → Nat → UInt8
  bigSigma0 : α → α
  bigSigma1 : α → α
  smallSigma0 : α → α
  smallSigma1 : α → α
  constants : List α
  start : List α

open Member

section Mixing

variable {α : Type} [Member α]

/-! ### Padding -/

/-- The bytes of one block. -/
def blockBytes (α : Type) [Member α] : Nat := 16 * wordBytes α

/-- The zero bytes that fill the last block, which ends with the length in two words. -/
def fill (α : Type) [Member α] (length : Nat) : Nat :=
  (blockBytes α - (length + 1 + 2 * wordBytes α) % blockBytes α) % blockBytes α

/-- The message with a marker, zeros, and its length in bits. -/
def padded (α : Type) [Member α] (message : Bytes) : Bytes :=
  message ++ 0x80 :: (List.replicate (fill α message.length) 0 ++
    BigEndian.ofNat (2 * wordBytes α) (8 * message.length))

/-! ### One block -/

/-- The eight words that a block is mixed into. -/
structure State (α : Type) where
  a : α
  b : α
  c : α
  d : α
  e : α
  f : α
  g : α
  h : α

/-- The state of eight given words; absent ones are zero. -/
def State.ofWords (words : List α) : State α :=
  let word (i : Nat) := words.getD i zero
  ⟨word 0, word 1, word 2, word 3, word 4, word 5, word 6, word 7⟩

def State.words (s : State α) : List α := [s.a, s.b, s.c, s.d, s.e, s.f, s.g, s.h]

/-- The word that follows the given ones in a schedule. -/
@[specialize] def nextWord (words : Array α) : α :=
  let back (count : Nat) := words.getD (words.size - count) zero
  smallSigma1 (back 2) + back 7 + smallSigma0 (back 15) + back 16

/-- A schedule with so many more words. -/
@[specialize] def extend : Nat → Array α → Array α
  | 0, words => words
  | count + 1, words => extend count (words.push (nextWord words))

/-- The schedule of a block: its sixteen words, then as many as the constants ask for. -/
@[specialize] def schedule (block : List α) : List α :=
  (extend ((constants : List α).length - 16) block.toArray).toList

/-- One step, with a constant and a word of the schedule. -/
@[specialize] def step (s : State α) (constant word : α) : State α :=
  let choice := (s.e &&& s.f) ^^^ (~~~s.e &&& s.g)
  let majority := (s.a &&& s.b) ^^^ (s.a &&& s.c) ^^^ (s.b &&& s.c)
  let first := s.h + bigSigma1 s.e + choice + constant + word
  let second := bigSigma0 s.a + majority
  ⟨first + second, s.a, s.b, s.c, s.d + first, s.e, s.f, s.g⟩

/-- The steps of a block, one for each constant. -/
@[specialize] def steps : List α → List α → State α → State α
  | constant :: constants, word :: words, s => steps constants words (step s constant word)
  | _, _, s => s

/-- The state after a block: all steps, then the state before them added word by word. -/
@[specialize] def mix (s : State α) (block : List α) : State α :=
  let t := steps constants (schedule block) s
  ⟨s.a + t.a, s.b + t.b, s.c + t.c, s.d + t.d, s.e + t.e, s.f + t.f, s.g + t.g, s.h + t.h⟩

/-! ### The digest -/

/-- A word with so many bytes put in below, and the bytes behind them. -/
@[specialize] def takeWord : Nat → α → Bytes → α × Bytes
  | 0, word, bytes => (word, bytes)
  | _, word, [] => (word, [])
  | count + 1, word, b :: bytes => takeWord count (shiftIn word b) bytes

/-- The first words of a byte string, and the bytes behind them. -/
@[specialize] def takeWords : Nat → Bytes → List α × Bytes
  | 0, bytes => ([], bytes)
  | count + 1, bytes =>
    let (word, rest) := takeWord (wordBytes α) zero bytes
    let (words, rest) := takeWords count rest
    (word :: words, rest)

/-- The state after so many blocks of a padded message. -/
@[specialize] def mixAll : Nat → Bytes → State α → State α
  | 0, _, s => s
  | count + 1, bytes, s =>
    let (block, rest) := takeWords 16 bytes
    mixAll count rest (mix s block)

/-- The bytes of a word, highest first. -/
@[specialize] def wordToBytes (word : α) : Bytes :=
  (List.range (wordBytes α)).map fun i => byteAbove word (wordBytes α - 1 - i)

/-- The digest of a message. -/
@[specialize] def digest (α : Type) [Member α] (message : Bytes) : Bytes :=
  let padded := padded α message
  let final : State α := mixAll (padded.length / blockBytes α) padded (.ofWords start)
  final.words.flatMap wordToBytes

end Mixing

/-! ### The two members in use -/

/-- The first 64 bits of the fractional parts of the cube roots of the first eighty primes. -/
def cubeRoots : List UInt64 :=
  [
    0x428a2f98d728ae22, 0x7137449123ef65cd, 0xb5c0fbcfec4d3b2f, 0xe9b5dba58189dbbc,
    0x3956c25bf348b538, 0x59f111f1b605d019, 0x923f82a4af194f9b, 0xab1c5ed5da6d8118,
    0xd807aa98a3030242, 0x12835b0145706fbe, 0x243185be4ee4b28c, 0x550c7dc3d5ffb4e2,
    0x72be5d74f27b896f, 0x80deb1fe3b1696b1, 0x9bdc06a725c71235, 0xc19bf174cf692694,
    0xe49b69c19ef14ad2, 0xefbe4786384f25e3, 0x0fc19dc68b8cd5b5, 0x240ca1cc77ac9c65,
    0x2de92c6f592b0275, 0x4a7484aa6ea6e483, 0x5cb0a9dcbd41fbd4, 0x76f988da831153b5,
    0x983e5152ee66dfab, 0xa831c66d2db43210, 0xb00327c898fb213f, 0xbf597fc7beef0ee4,
    0xc6e00bf33da88fc2, 0xd5a79147930aa725, 0x06ca6351e003826f, 0x142929670a0e6e70,
    0x27b70a8546d22ffc, 0x2e1b21385c26c926, 0x4d2c6dfc5ac42aed, 0x53380d139d95b3df,
    0x650a73548baf63de, 0x766a0abb3c77b2a8, 0x81c2c92e47edaee6, 0x92722c851482353b,
    0xa2bfe8a14cf10364, 0xa81a664bbc423001, 0xc24b8b70d0f89791, 0xc76c51a30654be30,
    0xd192e819d6ef5218, 0xd69906245565a910, 0xf40e35855771202a, 0x106aa07032bbd1b8,
    0x19a4c116b8d2d0c8, 0x1e376c085141ab53, 0x2748774cdf8eeb99, 0x34b0bcb5e19b48a8,
    0x391c0cb3c5c95a63, 0x4ed8aa4ae3418acb, 0x5b9cca4f7763e373, 0x682e6ff3d6b2b8a3,
    0x748f82ee5defb2fc, 0x78a5636f43172f60, 0x84c87814a1f0ab72, 0x8cc702081a6439ec,
    0x90befffa23631e28, 0xa4506cebde82bde9, 0xbef9a3f7b2c67915, 0xc67178f2e372532b,
    0xca273eceea26619c, 0xd186b8c721c0c207, 0xeada7dd6cde0eb1e, 0xf57d4f7fee6ed178,
    0x06f067aa72176fba, 0x0a637dc5a2c898a6, 0x113f9804bef90dae, 0x1b710b35131c471b,
    0x28db77f523047d84, 0x32caab7b40c72493, 0x3c9ebe0a15c9bebc, 0x431d67c49c100d4c,
    0x4cc5d4becb3e42b6, 0x597f299cfc657e2a, 0x5fcb6fab3ad6faec, 0x6c44198c4a475817]

/-- The first 64 bits of the fractional parts of the square roots of the first eight primes. -/
def squareRoots : List UInt64 :=
  [
    0x6a09e667f3bcc908, 0xbb67ae8584caa73b, 0x3c6ef372fe94f82b, 0xa54ff53a5f1d36f1,
    0x510e527fade682d1, 0x9b05688c2b3e6c1f, 0x1f83d9abfb41bd6b, 0x5be0cd19137e2179]

/-- The word with its bits moved down by `count`, those that fall off coming back on top. -/
@[inline] def rotate64 (word : UInt64) (count : UInt64) : UInt64 :=
  word >>> count ||| word <<< (64 - count)

/-- The word with its bits moved down by `count`, those that fall off coming back on top. -/
@[inline] def rotate32 (word : UInt32) (count : UInt32) : UInt32 :=
  word >>> count ||| word <<< (32 - count)

instance : Member UInt64 where
  wordBytes := 8
  zero := 0
  shiftIn word b := word <<< 8 ||| b.toUInt64
  byteAbove word count := (word >>> (8 * UInt64.ofNat count)).toUInt8
  bigSigma0 x := rotate64 x 28 ^^^ rotate64 x 34 ^^^ rotate64 x 39
  bigSigma1 x := rotate64 x 14 ^^^ rotate64 x 18 ^^^ rotate64 x 41
  smallSigma0 x := rotate64 x 1 ^^^ rotate64 x 8 ^^^ x >>> 7
  smallSigma1 x := rotate64 x 19 ^^^ rotate64 x 61 ^^^ x >>> 6
  constants := cubeRoots
  start := squareRoots

/-- The first 32 bits of the same fractions, for the first 64 primes. -/
def shortCubeRoots : List UInt32 :=
  (cubeRoots.take 64).map fun root : UInt64 => (root >>> 32).toUInt32

/-- The first 32 bits of the same fractions. -/
def shortSquareRoots : List UInt32 :=
  squareRoots.map fun root : UInt64 => (root >>> 32).toUInt32

instance : Member UInt32 where
  wordBytes := 4
  zero := 0
  shiftIn word b := word <<< 8 ||| b.toUInt32
  byteAbove word count := (word >>> (8 * UInt32.ofNat count)).toUInt8
  bigSigma0 x := rotate32 x 2 ^^^ rotate32 x 13 ^^^ rotate32 x 22
  bigSigma1 x := rotate32 x 6 ^^^ rotate32 x 11 ^^^ rotate32 x 25
  smallSigma0 x := rotate32 x 7 ^^^ rotate32 x 18 ^^^ x >>> 3
  smallSigma1 x := rotate32 x 17 ^^^ rotate32 x 19 ^^^ x >>> 10
  constants := shortCubeRoots
  start := shortSquareRoots

/-- The digest of 512 bits. -/
def sha512 (message : Bytes) : Bytes := digest UInt64 message

/-- The digest of 256 bits. -/
def sha256 (message : Bytes) : Bytes := digest UInt32 message

end AccessControl.Sha2
