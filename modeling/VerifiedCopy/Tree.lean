/-
# Hash trees

A tree holds the digest of every chunk of a file and, above them, the digest of
every pair of neighbours, up to one root. The row of leaves is filled up to a
power of two with the digest of the empty string, so the shape depends on the
number of chunks alone. The nodes stand in heap order: node `i` has the
children `2 * i + 1` and `2 * i + 2`, the root is node 0, and the leaves come
last.

`heapOf` builds the nodes row by row from the leaves up; `rootOf` is the root
defined by halving the row, without any nodes. A `Tree` carries the fact that
its nodes were built from leaves, so no other tree can be made.

Key definitions: `heapOf`, `rootOf`, `Tree`, `Tree.build`, `Tree.diff`.
-/
import VerifiedCopy.Digest.Blake3
import VerifiedCopy.Layout

namespace VerifiedCopy

/-- The row above a row: one digest for each pair of neighbours. -/
def pairUp : List Digest → List Digest
  | l :: r :: rest => Digest.ofPair l r :: pairUp rest
  | _ => []

/-- The nodes above and in a row of `2 ^ d` digests, in heap order. -/
def heapOf : Nat → List Digest → List Digest
  | 0, row => row
  | d + 1, row => heapOf d (pairUp row) ++ row

/-- The root over a row of `2 ^ d` digests: the pair of the roots of its
halves. -/
def rootOf : Nat → List Digest → Digest
  | 0, row => row.headD Digest.padding
  | d + 1, row =>
    Digest.ofPair (rootOf d (row.take (Nat.pow 2 d))) (rootOf d (row.drop (Nat.pow 2 d)))

/-- The leaves, filled up to a power of two. -/
def paddedRow (leaves : List Digest) : List Digest :=
  leaves ++ List.replicate (capacityFor leaves.length - leaves.length) Digest.padding

/-- All nodes over a list of leaves. -/
def heapOfLeaves (leaves : List Digest) : List Digest :=
  heapOf (depthFor leaves.length) (paddedRow leaves)

/-- The hash tree of a file. -/
structure Tree where
  layout : Layout
  nodes : Array Digest
  built : ∃ leaves : List Digest,
    leaves.length = layout.chunkCount ∧ nodes = (heapOfLeaves leaves).toArray
deriving DecidableEq

namespace Tree

/-- The tree over the given leaves, if there is one for each chunk. -/
def build (layout : Layout) (leaves : List Digest) : Except Error Tree :=
  if h : leaves.length = layout.chunkCount then
    .ok ⟨layout, (heapOfLeaves leaves).toArray, leaves, h, rfl⟩
  else
    .error (.treeMismatch s!"{layout.chunkCount} leaves" s!"{leaves.length} leaves")

/-- The tree of some content. -/
def ofContent (content : Bytes) (chunkSize : UInt32) : Except Error Tree := do
  let layout ← Layout.ofSizes content.length chunkSize
  build layout ((Bytes.pieces layout.chunkSize content).map Digest.ofLeaf)

/-- The number of chunks. -/
def leafCount (t : Tree) : Nat := t.layout.chunkCount

/-- The number of rows above the leaves. -/
def depth (t : Tree) : Nat := depthFor t.leafCount

/-- The number of leaves with the padding. -/
def capacity (t : Tree) : Nat := capacityFor t.leafCount

/-- The number of nodes before the first leaf. -/
def offset (t : Tree) : Nat := t.capacity - 1

/-- The digest at a place of the heap. -/
def node (t : Tree) (i : Nat) : Digest := t.nodes.getD i Digest.padding

/-- The digest at the root. -/
def root (t : Tree) : Digest := t.node 0

/-- The digest of chunk `i`. -/
def leaf? (t : Tree) (i : Nat) : Option Digest :=
  if i < t.leafCount then some (t.node (t.offset + i)) else none

/-- The digests of all chunks, in order. -/
def leaves (t : Tree) : List Digest :=
  (t.nodes.toList.drop t.offset).take t.leafCount

/-- The nodes above the leaves, in heap order. -/
def internal (t : Tree) : List Digest :=
  t.nodes.toList.take t.offset

/-- Whether some bytes have the digest of chunk `i`. -/
def verifyLeaf (t : Tree) (i : Nat) (b : Bytes) : Bool :=
  match t.leaf? i with
  | some d => Digest.ofLeaf b == d
  | none => false

/-- The places, counted from `i`, at which two lists differ. -/
def differences : Nat → List Digest → List Digest → List Nat
  | i, a :: as, b :: bs =>
    if a = b then differences (i + 1) as bs else i :: differences (i + 1) as bs
  | _, _, _ => []

/-- The chunks whose digests differ, for two trees of one layout. Equal roots
settle the question without a look at the leaves. -/
def diff (t other : Tree) : Except Error (List Nat) :=
  if t.layout = other.layout then
    if t.root = other.root then .ok []
    else .ok (differences 0 t.leaves other.leaves)
  else .error (.treeMismatch t.layout.describe other.layout.describe)

end Tree
end VerifiedCopy
