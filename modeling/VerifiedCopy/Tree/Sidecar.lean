/-
# The sidecar of a tree

A tree is kept in a file beside the data: a header of 33 bytes, the leaves, on
request also the nodes above them, and the CRC-32 of all that. The header holds
the magic `VFMREF01`, a zero byte, and then, least significant byte first, the
version (1), the total size, the chunk size, the number of leaves and a word of
flags, whose lowest bit says that the upper nodes are present.

The reader judges in this order: length, checksum, magic, version, sizes, number
of leaves, length of the body, upper nodes. Every refusal is a format error.

Key definitions: `Tree.header`, `Tree.body`, `Tree.encode`, `Tree.decode`.
-/
import VerifiedCopy.Sidecar
import VerifiedCopy.Tree

namespace VerifiedCopy
namespace Tree

/-- The magic of a tree sidecar. -/
def magic : String := "VFMREF01"

/-- The length of the header. -/
def headerLength : Nat := 33

/-- The header of a tree with a word of flags. -/
def header (t : Tree) (flags : Nat) : Bytes :=
  Bytes.ofText magic ++ [0] ++ Bytes.ofNatLE 4 1 ++ Bytes.ofNatLE 8 t.layout.totalSize
    ++ Bytes.ofNatLE 4 t.layout.chunkSize ++ Bytes.ofNatLE 4 t.layout.chunkCount
    ++ Bytes.ofNatLE 4 flags

/-- The bytes of a list of digests. -/
def digestBytes (ds : List Digest) : Bytes :=
  ds.flatMap Digest.bytes

/-- What the checksum of a sidecar covers. -/
def body (t : Tree) (flags : Nat) : Bytes :=
  t.header flags ++ digestBytes t.leaves
    ++ (if flags % 2 = 1 then digestBytes t.internal else [])

/-- The sidecar without the upper nodes. -/
def encode (t : Tree) : Bytes := Sidecar.withChecksum (t.body 0)

/-- The sidecar with the upper nodes. -/
def encodeFull (t : Tree) : Bytes := Sidecar.withChecksum (t.body 1)

/-- The first place, counted from `i`, at which a stored list departs from a
computed one. -/
def firstMismatch : Nat → List Digest → List Digest → Option Nat
  | i, s :: stored, c :: computed =>
    if s = c then firstMismatch (i + 1) stored computed else some i
  | _, _, _ => none

/-- The tree that a sidecar holds. -/
def decode (b : Bytes) : Except Error Tree := do
  let body ← Sidecar.checkedBody "tree" headerLength b
  let rest ← Sidecar.takeHeader "tree" magic body
  let (totalSize, rest) ← Sidecar.takeNat 8 rest
  let (chunkSize, rest) ← Sidecar.takeNat 4 rest
  let (leafCount, rest) ← Sidecar.takeNat 4 rest
  let (flags, rest) ← Sidecar.takeNat 4 rest
  let layout ← match Layout.ofSizes totalSize (UInt32.ofNat chunkSize) with
    | .ok layout => .ok layout
    | .error e => .error (.format s!"tree header: {e.message}")
  if layout.chunkCount ≠ leafCount then
    throw (.format s!"leaf count {leafCount} disagrees with {layout.describe}")
  let internalCount := if flags % 2 = 1 then capacityFor leafCount - 1 else 0
  let hashes := leafCount + internalCount
  if 32 * hashes + headerLength ≠ body.length then
    throw (.format s!"tree body is {body.length} bytes, header promises {hashes} hashes")
  let (leaves, rest) ← Sidecar.takeDigests leafCount rest
  let tree ← build layout leaves
  let (stored, _) ← Sidecar.takeDigests internalCount rest
  match firstMismatch 0 stored tree.internal with
  | some i => .error (.format s!"stored internal node {i} disagrees with its children")
  | none => return tree

end Tree
end VerifiedCopy
