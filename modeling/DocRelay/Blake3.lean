import DocRelay.Bytes

namespace DocRelay.Blake3

/-!
# BLAKE3

The 32-byte hash of a byte string.  The string is cut into chunks of 1024 bytes, which are the
leaves of a binary tree; a chunk is a chain of blocks of 64 bytes, and every node is one
application of the compression function.  The left part of a tree holds the largest power of
two of chunks that leaves something for the right part.

* `compress` — the compression function;
* `Node` — a compression that is still to be done, as an inner node or as the root;
* `tree` — the root node of a string;
* `hash` — its 32 bytes.
-/

/-- Sixteen words. -/
abbrev Words := Vector UInt32 16

/-- Eight words that are handed from node to node. -/
abbrev Chain := Vector UInt32 8

/-- The chaining words that every chunk begins with. -/
def initial : Chain :=
  #v[0x6A09E667, 0xBB67AE85, 0x3C6EF372, 0xA54FF53A, 0x510E527F, 0x9B05688C, 0x1F83D9AB,
    0x5BE0CD19]

/-- The order of the message words for the next round. -/
def permutation : Vector (Fin 16) 16 :=
  #v[2, 6, 3, 10, 7, 0, 4, 13, 1, 11, 12, 5, 9, 14, 15, 8]

/-- The flag of the first block of a chunk. -/
def chunkStart : UInt32 := 1

/-- The flag of the last block of a chunk. -/
def chunkEnd : UInt32 := 2

/-- The flag of a node with two parts. -/
def parentFlag : UInt32 := 4

/-- The flag of the root. -/
def rootFlag : UInt32 := 8

/-- A rotation to the right. -/
def rotate (w n : UInt32) : UInt32 :=
  (w >>> n) ||| (w <<< (32 - n))

/-- The mixing of four words of the state with two words of the message. -/
def mix (s : Words) (a b c d : Fin 16) (x y : UInt32) : Words :=
  let va := s[a] + s[b] + x
  let vd := rotate (s[d] ^^^ va) 16
  let vc := s[c] + vd
  let vb := rotate (s[b] ^^^ vc) 12
  let va := va + vb + y
  let vd := rotate (vd ^^^ va) 8
  let vc := vc + vd
  let vb := rotate (vb ^^^ vc) 7
  (((s.set a va).set b vb).set c vc).set d vd

/-- One round: the columns of the state, then its diagonals. -/
def round (s m : Words) : Words :=
  let s := mix s 0 4 8 12 m[0] m[1]
  let s := mix s 1 5 9 13 m[2] m[3]
  let s := mix s 2 6 10 14 m[4] m[5]
  let s := mix s 3 7 11 15 m[6] m[7]
  let s := mix s 0 5 10 15 m[8] m[9]
  let s := mix s 1 6 11 12 m[10] m[11]
  let s := mix s 2 7 8 13 m[12] m[13]
  mix s 3 4 9 14 m[14] m[15]

/-- So many rounds, the message permuted between them. -/
def rounds : Nat → Words → Words → Words
  | 0, s, _ => s
  | n + 1, s, m => rounds n (round s m) (permutation.map fun i => m[i])

/-- The compression of a block: the chain so far, the block, its number, its length and its
    flags give sixteen words. -/
def compress (chain : Chain) (block : Words) (counter : Nat) (length flags : UInt32) : Words :=
  let low := UInt32.ofNat counter
  let high := UInt32.ofNat (counter >>> 32)
  let s : Words :=
    #v[chain[0], chain[1], chain[2], chain[3], chain[4], chain[5], chain[6], chain[7],
      initial[0], initial[1], initial[2], initial[3], low, high, length, flags]
  let s := rounds 7 s block
  #v[s[0] ^^^ s[8], s[1] ^^^ s[9], s[2] ^^^ s[10], s[3] ^^^ s[11], s[4] ^^^ s[12],
    s[5] ^^^ s[13], s[6] ^^^ s[14], s[7] ^^^ s[15], s[8] ^^^ chain[0], s[9] ^^^ chain[1],
    s[10] ^^^ chain[2], s[11] ^^^ chain[3], s[12] ^^^ chain[4], s[13] ^^^ chain[5],
    s[14] ^^^ chain[6], s[15] ^^^ chain[7]]

/-- A compression that is still to be done. -/
structure Node where
  chain : Chain
  block : Words
  counter : Nat
  length : UInt32
  flags : UInt32

/-- The words that an inner node hands up. -/
def Node.chained (n : Node) : Chain :=
  let s := compress n.chain n.block n.counter n.length n.flags
  #v[s[0], s[1], s[2], s[3], s[4], s[5], s[6], s[7]]

/-- The words of the hash, from the root node. -/
def Node.rootWords (n : Node) : Chain :=
  Node.chained { n with counter := 0, flags := n.flags ||| rootFlag }

/-- The words of a block, filled up with zeros. -/
def wordsOf (block : Bytes) : Words :=
  Vector.ofFn fun i => UInt32.ofNat (Bytes.toNat ((block.drop (4 * i.val)).take 4))

/-- The last block of a chunk, the blocks before it chained; `first` is the flag of the next
    block and `fuel` bounds the blocks. -/
def chunkFrom : Nat → Chain → UInt32 → Nat → Bytes → Node
  | 0, chain, first, counter, bytes =>
    ⟨chain, wordsOf bytes, counter, UInt32.ofNat bytes.length, first ||| chunkEnd⟩
  | fuel + 1, chain, first, counter, bytes =>
    if bytes.length ≤ 64 then
      ⟨chain, wordsOf bytes, counter, UInt32.ofNat bytes.length, first ||| chunkEnd⟩
    else
      let block : Node := ⟨chain, wordsOf (bytes.take 64), counter, 64, first⟩
      chunkFrom fuel block.chained 0 counter (bytes.drop 64)

/-- The node of a chunk of at most 1024 bytes. -/
def chunk (counter : Nat) (bytes : Bytes) : Node :=
  chunkFrom 15 initial chunkStart counter bytes

/-- The node above two others. -/
def parent (left right : Chain) : Node :=
  { chain := initial
    block := Vector.ofFn fun i =>
      if h : i.val < 8 then left[i.val] else right[i.val - 8]
    counter := 0
    length := 64
    flags := parentFlag }

/-- The node of the bytes whose first chunk has the number `counter`; `levels` bounds the height
    of the tree. -/
def tree : Nat → Nat → Bytes → Node
  | 0, counter, bytes => chunk counter bytes
  | levels + 1, counter, bytes =>
    if bytes.length ≤ 1024 then chunk counter bytes
    else
      let chunks := 1 <<< Nat.log2 ((bytes.length - 1) / 1024)
      let left := tree levels counter (bytes.take (1024 * chunks))
      let right := tree levels (counter + chunks) (bytes.drop (1024 * chunks))
      parent left.chained right.chained

/-- The 32 bytes of the hash. -/
def hash (bytes : Bytes) : Bytes :=
  (tree (bytes.length + 1) 0 bytes).rootWords.toList.flatMap fun w => Bytes.ofNat 4 w.toNat

/-- A hash has 32 bytes. -/
theorem length_hash (bytes : Bytes) : (hash bytes).length = 32 := by
  have (words : List UInt32) :
      (words.flatMap fun w => Bytes.ofNat 4 w.toNat).length = 4 * words.length := by
    induction words with
    | nil => rfl
    | cons w rest ih => simp [ih]; omega
  simp [hash, this]

end DocRelay.Blake3
