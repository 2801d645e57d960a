set_option autoImplicit false

/-!
The hash function BLAKE3 with its digest of 32 bytes. The input is cut into chunks of 1024 bytes; the
chunks are the leaves of a binary tree whose left subtrees are complete, and the digest is the root's.
-/
namespace Wavefront.Digest

/-- Eight words, the value a node of the tree passes upwards. -/
abbrev Chain := Vector UInt32 8

/-- Sixteen words of input. -/
abbrev Block := Vector UInt32 16

/-- The value every chunk starts from. -/
def start : Chain := #v[0x6A09E667, 0xBB67AE85, 0x3C6EF372, 0xA54FF53A,
  0x510E527F, 0x9B05688C, 0x1F83D9AB, 0x5BE0CD19]

/-- How the words of a block are reordered from round to round. -/
def reorder (m : Block) : Block := #v[m[2], m[6], m[3], m[10], m[7], m[0], m[4], m[13],
  m[1], m[11], m[12], m[5], m[9], m[14], m[15], m[8]]

/-- Turns a word to the right by `count` bits, `count` lying between 1 and 31. -/
def rotate (word count : UInt32) : UInt32 := (word >>> count) ||| (word <<< (32 - count))

/-- Mixes two words of input into four words of the state. -/
def mix (s : Block) (a b c d : Fin 16) (x y : UInt32) : Block :=
  let s := s.set a (s[a] + s[b] + x)
  let s := s.set d (rotate (s[d] ^^^ s[a]) 16)
  let s := s.set c (s[c] + s[d])
  let s := s.set b (rotate (s[b] ^^^ s[c]) 12)
  let s := s.set a (s[a] + s[b] + y)
  let s := s.set d (rotate (s[d] ^^^ s[a]) 8)
  let s := s.set c (s[c] + s[d])
  s.set b (rotate (s[b] ^^^ s[c]) 7)

/-- Mixes the columns, then the diagonals of the state. -/
def round (s m : Block) : Block :=
  let s := mix s 0 4 8 12 m[0] m[1]
  let s := mix s 1 5 9 13 m[2] m[3]
  let s := mix s 2 6 10 14 m[4] m[5]
  let s := mix s 3 7 11 15 m[6] m[7]
  let s := mix s 0 5 10 15 m[8] m[9]
  let s := mix s 1 6 11 12 m[10] m[11]
  let s := mix s 2 7 8 13 m[12] m[13]
  mix s 3 4 9 14 m[14] m[15]

/-- As many rounds as the first argument says. -/
def rounds : Nat → Block → Block → Block
  | 0, s, _ => s
  | n + 1, s, m => rounds n (round s m) (reorder m)

/-- What is compressed at one place of the tree. -/
structure Input where
  chain : Chain
  block : Block
  counter : UInt64
  size : UInt32
  flags : UInt32

/-- The compression of a block, folded to eight words. -/
def Input.compress (i : Input) : Chain :=
  let s : Block := #v[i.chain[0], i.chain[1], i.chain[2], i.chain[3],
    i.chain[4], i.chain[5], i.chain[6], i.chain[7],
    start[0], start[1], start[2], start[3],
    i.counter.toUInt32, (i.counter >>> 32).toUInt32, i.size, i.flags]
  let s := rounds 7 s i.block
  Vector.ofFn fun k : Fin 8 => s[k.val] ^^^ s[k.val + 8]

/-- A word from its bytes, the lowest first; missing bytes count as zero. -/
def wordOf (bytes : List UInt8) : UInt32 :=
  (bytes.take 4).foldr (fun byte word => byte.toUInt32 + (word <<< 8)) 0

/-- Cuts bytes into `count` words. -/
def wordsOf : Nat → List UInt8 → List UInt32
  | 0, _ => []
  | count + 1, bytes => wordOf bytes :: wordsOf count (bytes.drop 4)

/-- A block from at most 64 bytes, filled up with zeros. -/
def blockOf (bytes : List UInt8) : Block :=
  let words := (wordsOf 16 bytes).toArray
  Vector.ofFn fun k : Fin 16 => words.getD k.val 0

/-- The first block of a chunk carries this flag. -/
def chunkStart : UInt32 := 1
/-- The last block of a chunk carries this flag. -/
def chunkEnd : UInt32 := 2
/-- An inner node carries this flag. -/
def parent : UInt32 := 4
/-- The root carries this flag. -/
def root : UInt32 := 8

/-- Walks through a chunk block by block and leaves the last block to be compressed. -/
def chunkFrom (counter : UInt64) (chain : Chain) (flags : UInt32) (bytes : List UInt8) : Input :=
  if bytes.length ≤ 64 then
    ⟨chain, blockOf bytes, counter, bytes.length.toUInt32, flags ||| chunkEnd⟩
  else
    chunkFrom counter (Input.compress ⟨chain, blockOf (bytes.take 64), counter, 64, flags⟩) 0
      (bytes.drop 64)
termination_by bytes.length
decreasing_by simp only [List.length_drop]; omega

/-- A chunk of at most 1024 bytes at place `counter`. -/
def chunk (counter : UInt64) (bytes : List UInt8) : Input := chunkFrom counter start chunkStart bytes

/-- The size of the left subtree over `n` bytes: the largest number of chunks that is a power of two
and leaves at least one byte to the right. -/
def leftSize (n : Nat) : Nat := 1024 <<< ((n - 1) / 1024).log2

theorem leftSize_pos (n : Nat) : 0 < leftSize n := by
  rw [leftSize, Nat.shiftLeft_eq]
  exact Nat.mul_pos (by decide) (Nat.pow_pos (by decide))

theorem leftSize_lt (n : Nat) (large : 1024 < n) : leftSize n < n := by
  have chunks : (n - 1) / 1024 ≠ 0 := by omega
  have bound := Nat.log2_self_le chunks
  rw [leftSize, Nat.shiftLeft_eq]
  omega

/-- The tree over some bytes, its first chunk standing at place `counter`. -/
def tree (counter : Nat) (bytes : List UInt8) : Input :=
  if _large : 1024 < bytes.length then
    let size := leftSize bytes.length
    let left := (tree counter (bytes.take size)).compress
    let right := (tree (counter + size / 1024) (bytes.drop size)).compress
    ⟨start, (left ++ right).cast rfl, 0, 64, parent⟩
  else chunk counter.toUInt64 bytes
termination_by bytes.length
decreasing_by
  · have := leftSize_lt bytes.length _large
    simp only [List.length_take]
    omega
  · have := leftSize_pos bytes.length
    simp only [List.length_drop]
    omega

/-- The bytes of a word, the lowest first. -/
def bytesOf (word : UInt32) : List UInt8 :=
  [word.toUInt8, (word >>> 8).toUInt8, (word >>> 16).toUInt8, (word >>> 24).toUInt8]

def digest (bytes : List UInt8) : List UInt8 :=
  let top := tree 0 bytes
  (Input.compress { top with flags := top.flags ||| root }).toList.flatMap bytesOf

/-- Two lower-case hexadecimal digits a byte. -/
def hexChars (bytes : List UInt8) : List Char :=
  bytes.flatMap fun byte => [Nat.digitChar (byte.toNat / 16), Nat.digitChar (byte.toNat % 16)]

def hex (bytes : List UInt8) : String := String.ofList (hexChars (digest bytes))

/-- The first `count` hexadecimal digits of the digest, or all of them. -/
def shortHex (count : Nat) (bytes : List UInt8) : String :=
  String.ofList ((hexChars (digest bytes)).take count)

def ofText (s : String) : String := hex s.toUTF8.toList

end Wavefront.Digest
