import AccessControl.Digest.Words

/-!
The keyed BLAKE3 digest. A message is cut into chunks of 1024 bytes; the chunks are the leaves of a
binary tree in which every left part is as large a power of two as leaves something for the right;
each node is compressed to eight words under the key, and the root gives 32 bytes.
-/

namespace AccessControl.Blake3

/-! ### Compression -/

/-- Sixteen words: a block of a message, or the state while it is mixed. -/
abbrev Block := Vector UInt32 16

/-- Eight words: a key, or what a node is compressed to. -/
abbrev Chaining := Vector UInt32 8

/-- The constants that stand beside the counter. -/
def constants : Vector UInt32 4 := #v[0x6A09E667, 0xBB67AE85, 0x3C6EF372, 0xA54FF53A]

/-- Where each word of a block comes from in the block of the round before. -/
def permutation : Vector (Fin 16) 16 := #v[2, 6, 3, 10, 7, 0, 4, 13, 1, 11, 12, 5, 9, 14, 15, 8]

def permute (block : Block) : Block := permutation.map fun source => block[source]

/-- The word with its bits moved down by `count`, those that fall off coming back on top. -/
def rotate (word : UInt32) (count : UInt32) : UInt32 :=
  word >>> count ||| word <<< (32 - count)

/-- Mixes two words of a block into four words of the state. -/
def quarter (s : Block) (a b c d : Fin 16) (x y : UInt32) : Block :=
  let a1 := s[a] + s[b] + x
  let d1 := rotate (s[d] ^^^ a1) 16
  let c1 := s[c] + d1
  let b1 := rotate (s[b] ^^^ c1) 12
  let a2 := a1 + b1 + y
  let d2 := rotate (d1 ^^^ a2) 8
  let c2 := c1 + d2
  let b2 := rotate (b1 ^^^ c2) 7
  (((s.set a a2).set b b2).set c c2).set d d2

/-- The four columns of the state, then its four diagonals. -/
def round (s : Block) (m : Block) : Block :=
  let s := quarter s 0 4 8 12 m[0] m[1]
  let s := quarter s 1 5 9 13 m[2] m[3]
  let s := quarter s 2 6 10 14 m[4] m[5]
  let s := quarter s 3 7 11 15 m[6] m[7]
  let s := quarter s 0 5 10 15 m[8] m[9]
  let s := quarter s 1 6 11 12 m[10] m[11]
  let s := quarter s 2 7 8 13 m[12] m[13]
  quarter s 3 4 9 14 m[14] m[15]

/-- So many rounds, the block permuted between them. -/
def rounds : Nat → Block → Block → Block
  | 0, s, _ => s
  | count + 1, s, m => rounds count (round s m) (permute m)

/-- What the rounds make of a chaining value and a block, with the counter of the chunk, the length
of the block in bytes, and the flags that tell nodes apart. -/
def compress (chaining : Chaining) (block : Block) (counter : UInt64) (length flags : UInt32) :
    Chaining :=
  let s := rounds 7
    (chaining ++ constants ++ #v[counter.toUInt32, (counter >>> 32).toUInt32, length, flags]) block
  Vector.ofFn fun i : Fin 8 => s[i.val] ^^^ s[i.val + 8]

/-! ### Nodes -/

def chunkStart : UInt32 := 1
def chunkEnd : UInt32 := 2
def parent : UInt32 := 4
def root : UInt32 := 8
def keyedHash : UInt32 := 16

/-- The words of up to `4 * count` bytes; absent bytes are zero. -/
def words (count : Nat) (bytes : Bytes) : Vector UInt32 count :=
  Vector.ofFn fun i => UInt32.ofNat (LittleEndian.toNat ((bytes.drop (4 * i)).take 4))

/-- A chunk compressed block by block; the flags `last` go to its last block, beside its own. -/
def chunk (key : Chaining) (counter : UInt64) (last : UInt32) (bytes : Bytes) : Chaining :=
  let before := (bytes.length - 1) / 64
  let opening (i : Nat) : UInt32 := if i = 0 then chunkStart ||| keyedHash else keyedHash
  let chaining := Nat.fold before
    (fun i _ c => compress c (words 16 (bytes.drop (64 * i))) counter 64 (opening i)) key
  let tail := bytes.drop (64 * before)
  compress chaining (words 16 tail) counter (UInt32.ofNat tail.length)
    (opening before ||| chunkEnd ||| last)

/-- The bytes of a chunk. -/
def chunkBytes : Nat := 1024

/-- The length of the left part of a message of more than one chunk: the largest power of two
chunks that leaves something for the right. -/
def leftBytes (length : Nat) : Nat := chunkBytes * Nat.pow 2 ((length - 1) / chunkBytes).log2

theorem leftBytes_lt {length : Nat} (h : chunkBytes < length) : leftBytes length < length := by
  have hne : (length - 1) / chunkBytes ≠ 0 := by
    simp only [chunkBytes] at h ⊢
    omega
  have hlog := Nat.log2_self_le hne
  rw [← Nat.pow_eq] at hlog
  have hmul : chunkBytes * ((length - 1) / chunkBytes) ≤ length - 1 := Nat.mul_div_le _ _
  have := Nat.mul_le_mul_left chunkBytes hlog
  unfold leftBytes
  omega

theorem leftBytes_pos (length : Nat) : 0 < leftBytes length :=
  Nat.mul_pos (by decide) (Nat.two_pow_pos _)

/-- The node over the bytes from chunk `counter` on; `last` holds the flag of the root. -/
def node (key : Chaining) (counter : UInt64) (last : UInt32) (bytes : Bytes) : Chaining :=
  if h : chunkBytes < bytes.length then
    let left := leftBytes bytes.length
    have := leftBytes_lt h
    have := leftBytes_pos bytes.length
    let a := node key counter 0 (bytes.take left)
    let b := node key (counter + UInt64.ofNat (left / chunkBytes)) 0 (bytes.drop left)
    compress key (a ++ b) 0 64 (parent ||| keyedHash ||| last)
  else
    chunk key counter last bytes
termination_by bytes.length
decreasing_by
  · simp only [List.length_take]; omega
  · simp only [List.length_drop]; omega

/-- The 32 bytes of a message's digest under a key of 32 bytes. -/
def keyedDigest (key message : Bytes) : Bytes :=
  (node (words 8 key) 0 root message).toList.flatMap fun word => LittleEndian.ofNat 4 word.toNat

end AccessControl.Blake3
