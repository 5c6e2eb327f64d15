import Bundler.Text.Hex
/-!
# Content digests

The BLAKE3 hash of a byte string, as 32 bytes. The input is cut into chunks of 1024 bytes, each
chunk into blocks of 64; a chunk folds its blocks into a chaining value, and the chaining values
are paired up, level by level, until one node is left. The last compression, of that root node,
carries its own flag and gives the digest.
-/

namespace Bundler

/-- A content digest. -/
structure Digest where
  bytes : Bytes
  deriving DecidableEq, Repr

namespace Digest

/-- Sixteen words: a message block, or the state of a compression. -/
abbrev Words := Vector UInt32 16

/-- A word rotated to the right by `0 < n < 32` bits. -/
def rotateRight (w : UInt32) (n : UInt32) : UInt32 := (w >>> n) ||| (w <<< (32 - n))

/-- The chaining value every chunk starts from. -/
def iv : List UInt32 :=
  [0x6A09E667, 0xBB67AE85, 0x3C6EF372, 0xA54FF53A, 0x510E527F, 0x9B05688C, 0x1F83D9AB, 0x5BE0CD19]

/-- Mixes two message words into four words of the state. -/
def mix (v : Words) (a b c d : Fin 16) (x y : UInt32) : Words :=
  let va := v[a] + v[b] + x
  let vd := rotateRight (v[d] ^^^ va) 16
  let vc := v[c] + vd
  let vb := rotateRight (v[b] ^^^ vc) 12
  let va := va + vb + y
  let vd := rotateRight (vd ^^^ va) 8
  let vc := vc + vd
  let vb := rotateRight (vb ^^^ vc) 7
  (((v.set a va).set b vb).set c vc).set d vd

/-- One round: the columns of the state, then its diagonals. -/
def round (v m : Words) : Words :=
  let v := mix v 0 4 8 12 m[0] m[1]
  let v := mix v 1 5 9 13 m[2] m[3]
  let v := mix v 2 6 10 14 m[4] m[5]
  let v := mix v 3 7 11 15 m[6] m[7]
  let v := mix v 0 5 10 15 m[8] m[9]
  let v := mix v 1 6 11 12 m[10] m[11]
  let v := mix v 2 7 8 13 m[12] m[13]
  mix v 3 4 9 14 m[14] m[15]

/-- The order in which a round's message words enter the next round. -/
def permute (m : Words) : Words :=
  #v[m[2], m[6], m[3], m[10], m[7], m[0], m[4], m[13], m[1], m[11], m[12], m[5], m[9], m[14], m[15],
    m[8]]

/-- `n` rounds, permuting the message between them. -/
def rounds : Nat → Words → Words → Words
  | 0, v, _ => v
  | n + 1, v, m => rounds n (round v m) (permute m)

/-- What a compression works on: the chaining value so far, one block, how many bytes of it are
input, the number of the chunk, and flags for the block's place. -/
structure Node where
  chaining : List UInt32
  block : Words
  counter : Nat
  length : Nat
  flags : UInt32

/-- The first block of a chunk. -/
def chunkStart : UInt32 := 1
/-- The last block of a chunk. -/
def chunkEnd : UInt32 := 2
/-- A node that joins two others. -/
def parent : UInt32 := 4
/-- The last compression of all. -/
def root : UInt32 := 8

/-- Compresses a node to eight words. -/
def Node.compress (n : Node) (extra : UInt32) : List UInt32 :=
  let h (i : Nat) : UInt32 := n.chaining.getD i 0
  let k (i : Nat) : UInt32 := iv.getD i 0
  let v : Words := #v[h 0, h 1, h 2, h 3, h 4, h 5, h 6, h 7, k 0, k 1, k 2, k 3,
    UInt32.ofNat (n.counter % 0x100000000), UInt32.ofNat (n.counter / 0x100000000 % 0x100000000),
    UInt32.ofNat n.length, n.flags ||| extra]
  let w := rounds 7 v n.block
  [w[0] ^^^ w[8], w[1] ^^^ w[9], w[2] ^^^ w[10], w[3] ^^^ w[11], w[4] ^^^ w[12], w[5] ^^^ w[13],
    w[6] ^^^ w[14], w[7] ^^^ w[15]]

/-- Little-endian words of some bytes, a short last word filled up with zeros. -/
def wordsOfBytes : Bytes → List UInt32
  | a :: b :: c :: d :: rest =>
    (a.toUInt32 ||| (b.toUInt32 <<< 8) ||| (c.toUInt32 <<< 16) ||| (d.toUInt32 <<< 24)) ::
      wordsOfBytes rest
  | [a, b, c] => [a.toUInt32 ||| (b.toUInt32 <<< 8) ||| (c.toUInt32 <<< 16)]
  | [a, b] => [a.toUInt32 ||| (b.toUInt32 <<< 8)]
  | [a] => [a.toUInt32]
  | [] => []

/-- The four bytes of a word, the lowest first. -/
def bytesOfWord (w : UInt32) : Bytes :=
  [w.toUInt8, (w >>> 8).toUInt8, (w >>> 16).toUInt8, (w >>> 24).toUInt8]

/-- Sixteen words from a list, filled up with zeros. -/
def blockOf (words : List UInt32) : Words :=
  let a := words.toArray
  Vector.ofFn fun i => a.getD i 0

/-- Pieces of `size` elements, the last one shorter; the empty list is one empty piece. The first
argument bounds the number of cuts. -/
def pieces {α : Type} (size : Nat) : Nat → List α → List (List α)
  | 0, l => [l]
  | cuts + 1, l =>
    match l.drop size with
    | [] => [l]
    | rest => l.take size :: pieces size cuts rest

/-- Folds the blocks of a chunk; the last one is left uncompressed. -/
def foldBlocks (counter : Nat) : UInt32 → List UInt32 → List Bytes → Node
  | flags, chaining, [] => ⟨chaining, blockOf [], counter, 0, flags ||| chunkEnd⟩
  | flags, chaining, [last] =>
    ⟨chaining, blockOf (wordsOfBytes last), counter, last.length, flags ||| chunkEnd⟩
  | flags, chaining, block :: rest =>
    let node : Node := ⟨chaining, blockOf (wordsOfBytes block), counter, block.length, flags⟩
    foldBlocks counter 0 (node.compress 0) rest

/-- The node of one chunk. -/
def chunkNode (counter : Nat) (chunk : Bytes) : Node :=
  foldBlocks counter chunkStart iv (pieces 64 16 chunk)

/-- The node over two others. -/
def join (left right : Node) : Node :=
  ⟨iv, blockOf (left.compress 0 ++ right.compress 0), 0, 64, parent⟩

/-- One level of the tree: neighbours are joined, an odd last node moves up as it is. -/
def pairUp : List Node → List Node
  | left :: right :: rest => join left right :: pairUp rest
  | short => short

/-- The root of the tree over some nodes; the first argument bounds the number of levels. -/
def rootNode : Nat → List Node → Option Node
  | _, [] => none
  | _, [node] => some node
  | 0, node :: _ => some node
  | levels + 1, nodes => rootNode levels (pairUp nodes)

/-- The digest of some bytes. -/
def hash (bytes : Bytes) : Digest :=
  let chunks := pieces 1024 bytes.length bytes
  let nodes := chunks.mapIdx chunkNode
  match rootNode chunks.length nodes with
  | none => ⟨[]⟩
  | some node => ⟨(node.compress root).flatMap bytesOfWord⟩

/-- The digest of pieces laid end to end. -/
def hashAll (parts : List Bytes) : Digest := hash parts.flatten

/-- A digest is written as 64 lowercase hexadecimal digits. -/
def toHex (d : Digest) : String := Hex.ofBytes d.bytes

/-- A digest with its kind, for diagnostics. -/
def debugText (d : Digest) : String := "Hash32(" ++ d.toHex ++ ")"

end Digest
end Bundler
