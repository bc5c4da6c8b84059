/-
# Audit paths

An audit path shows that a digest is a leaf of a tree with a known root: it
lists, from the leaf up, the sibling of every node on the way to the root.
`climb` joins a digest with such a path, and `verifyPath` accepts if this gives
the root and the path is as long as the index needs.

Key definitions: `Tree.auditPath?`, `climb`, `verifyPath`.
-/
import VerifiedCopy.Tree

namespace VerifiedCopy

/-- The other child of the parent of a node that is not the root. -/
def siblingOf (node : Nat) : Nat :=
  if node % 2 = 1 then node + 1 else node - 1

namespace Tree

/-- The siblings of `node` and of the `d - 1` nodes above it. -/
def siblings (t : Tree) : Nat → Nat → List Digest
  | 0, _ => []
  | d + 1, node => t.node (siblingOf node) :: siblings t d ((node - 1) / 2)

/-- The siblings on the way from leaf `i` to the root. -/
def auditPath? (t : Tree) (i : Nat) : Option (List Digest) :=
  if i < t.leafCount then some (t.siblings t.depth (t.offset + i)) else none

end Tree

/-- The digest and the place in its row that a leaf and its siblings lead
to. -/
def climb : Nat → Digest → List Digest → Nat × Digest
  | place, d, [] => (place, d)
  | place, d, s :: path =>
    climb (place / 2) (if place % 2 = 0 then Digest.ofPair d s else Digest.ofPair s d) path

/-- Whether `leaf` at place `index` and its siblings lead to `root`. -/
def verifyPath (root : Digest) (index : Nat) (leaf : Digest) (path : List Digest) : Bool :=
  let top := climb index leaf path
  top.1 == 0 && top.2 == root

end VerifiedCopy
