/-
# BLAKE3

The digest of a string of bytes. The bytes are cut into chunks of 1024 and each
chunk into blocks of 64; the blocks of a chunk are compressed one after the
other, and the chunks are joined in a binary tree. The tree is built row by
row: neighbours are joined in pairs and an odd node at the end moves up as it
is, which is the tree whose left half is the largest power of two below the
number of chunks. A node is kept as the input of its last compression
(`Node`), because the same compression gives a chaining value inside the tree
and the digest at the root.

Key definitions: `compress`, `chunkNode`, `joinPairs`, `hash`.
-/
import VerifiedCopy.Digest

namespace VerifiedCopy
namespace Blake3

/-- A chaining value. -/
abbrev Chain := Vector UInt32 8

/-- A block of message words, or the state of a compression. -/
abbrev Block := Vector UInt32 16

/-- The chaining value that a tree starts from. -/
def iv : Chain :=
  #v[0x6A09E667, 0xBB67AE85, 0x3C6EF372, 0xA54FF53A,
     0x510E527F, 0x9B05688C, 0x1F83D9AB, 0x5BE0CD19]

/-- Rotation to the right by `n < 32` bits. -/
def rotr (x : UInt32) (n : UInt32) : UInt32 :=
  (x >>> n) ||| (x <<< (32 - n))

/-- The quarter round on the state words `a b c d` with message words `x y`. -/
def quarter (v : Block) (a b c d : Fin 16) (x y : UInt32) : Block :=
  let va := v[a] + v[b] + x
  let vd := rotr (v[d] ^^^ va) 16
  let vc := v[c] + vd
  let vb := rotr (v[b] ^^^ vc) 12
  let va := va + vb + y
  let vd := rotr (vd ^^^ va) 8
  let vc := vc + vd
  let vb := rotr (vb ^^^ vc) 7
  (((v.set a va).set b vb).set c vc).set d vd

/-- One round: the columns, then the diagonals. -/
def round (v m : Block) : Block :=
  let v := quarter v 0 4 8 12 m[0] m[1]
  let v := quarter v 1 5 9 13 m[2] m[3]
  let v := quarter v 2 6 10 14 m[4] m[5]
  let v := quarter v 3 7 11 15 m[6] m[7]
  let v := quarter v 0 5 10 15 m[8] m[9]
  let v := quarter v 1 6 11 12 m[10] m[11]
  let v := quarter v 2 7 8 13 m[12] m[13]
  quarter v 3 4 9 14 m[14] m[15]

/-- The order in which the next round takes the message words. -/
def permute (m : Block) : Block :=
  #v[m[2], m[6], m[3], m[10], m[7], m[0], m[4], m[13],
     m[1], m[11], m[12], m[5], m[9], m[14], m[15], m[8]]

/-- `n` rounds, the message permuted between them. -/
def rounds : Nat → Block → Block → Block
  | 0, v, _ => v
  | n + 1, v, m => rounds n (round v m) (permute m)

/-- The input of a compression: a chaining value, a block of words, the number
of the chunk, the number of bytes in the block, and the flags. -/
structure Node where
  chain : Chain
  block : Block
  counter : UInt64
  size : UInt32
  flags : UInt32

/-- The flag on the first block of a chunk. -/
def chunkStart : UInt32 := 1

/-- The flag on the last block of a chunk. -/
def chunkEnd : UInt32 := 2

/-- The flag on a node with two children. -/
def parent : UInt32 := 4

/-- The flag on the node at the root. -/
def root : UInt32 := 8

/-- The compression of a node, as far as a chaining value needs it. -/
def compress (n : Node) : Chain :=
  let h := n.chain
  let v : Block :=
    #v[h[0], h[1], h[2], h[3], h[4], h[5], h[6], h[7], iv[0], iv[1], iv[2], iv[3],
       n.counter.toUInt32, (n.counter >>> 32).toUInt32, n.size, n.flags]
  let v := rounds 7 v n.block
  #v[v[0] ^^^ v[8], v[1] ^^^ v[9], v[2] ^^^ v[10], v[3] ^^^ v[11],
     v[4] ^^^ v[12], v[5] ^^^ v[13], v[6] ^^^ v[14], v[7] ^^^ v[15]]

/-- The word whose four bytes come first, least significant first; missing
bytes are zeros. -/
def word (b : Bytes) : UInt32 :=
  UInt32.ofNat (Bytes.toNatLE (b.take 4))

/-- The sixteen words of at most 64 bytes. -/
def words (b : Bytes) : Block :=
  Vector.ofFn fun i : Fin 16 => word (b.drop (4 * i.val))

/-- The last node of a chunk: every block but the last is compressed into the
chaining value of the next. The first argument counts the blocks after this
one. -/
def blocksNode : Nat → UInt64 → UInt32 → Chain → Bytes → Node
  | 0, counter, start, chain, b =>
    ⟨chain, words b, counter, UInt32.ofNat b.length, start ||| chunkEnd⟩
  | n + 1, counter, start, chain, b =>
    blocksNode n counter 0 (compress ⟨chain, words (b.take 64), counter, 64, start⟩) (b.drop 64)

/-- The node of the chunk with the given number. -/
def chunkNode (counter : Nat) (b : Bytes) : Node :=
  blocksNode ((b.length - 1) / 64) (UInt64.ofNat counter) chunkStart iv b

/-- The node above two nodes. -/
def join (l r : Node) : Node :=
  ⟨iv, compress l ++ compress r, 0, 64, parent⟩

/-- Neighbours joined in pairs; an odd node at the end stays as it is. -/
def joinPairs : List Node → List Node
  | l :: r :: rest => join l r :: joinPairs rest
  | rest => rest

/-- Rows joined until one node is left; `n` bounds the number of rows. -/
def joinRows : Nat → Node → List Node → Node
  | 0, n, _ => n
  | _ + 1, n, [] => n
  | k + 1, n, m :: rest =>
    match joinPairs (n :: m :: rest) with
    | [] => n
    | n :: rest => joinRows k n rest

/-- The nodes of the chunks of a string of bytes, numbered from `counter`. -/
def chunkNodes : Nat → List Bytes → List Node
  | _, [] => []
  | counter, b :: bs => chunkNode counter b :: chunkNodes (counter + 1) bs

/-- The node at the root of the tree. -/
def rootNode (b : Bytes) : Node :=
  match chunkNodes 0 (Bytes.pieces 1024 b) with
  | [] => chunkNode 0 []
  | n :: rest => joinRows (rest.length + 1) n rest

/-- The bytes of a chaining value. -/
def chainBytes (c : Chain) : Bytes :=
  c.toList.flatMap fun w => Bytes.ofNatLE 4 w.toNat

theorem length_flatMap_ofNatLE (ws : List UInt32) :
    (ws.flatMap fun w => Bytes.ofNatLE 4 w.toNat).length = 4 * ws.length := by
  induction ws with
  | nil => rfl
  | cons w ws ih => simp [ih]; omega

/-- The BLAKE3 digest of a string of bytes. -/
def hash (b : Bytes) : Digest :=
  let n := rootNode b
  ⟨chainBytes (compress { n with counter := 0, flags := n.flags ||| root }), by
    rw [chainBytes, length_flatMap_ofNatLE, Vector.length_toList]⟩

end Blake3

namespace Digest

/-- The digest of a chunk of content. -/
def ofLeaf (b : Bytes) : Digest := Blake3.hash b

/-- The digest that fills the leaf row past the last chunk. -/
def padding : Digest := Blake3.hash []

/-- The digest of the node above two digests. -/
def ofPair (l r : Digest) : Digest := Blake3.hash (l.bytes ++ r.bytes)

end Digest
end VerifiedCopy
