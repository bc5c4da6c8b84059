/-
# Trees on disk

A tree is saved to its sidecar and loaded from it, or made from a complete local
file by hashing every chunk. Comparing the tree of a local file with a trusted
one gives a report: how many chunks are good and which ones are bad.

Key definitions: `Tree.save`, `Tree.load`, `Tree.ofFile`, `Tree.verifyLocal`.
-/
import VerifiedCopy.Disk.Save
import VerifiedCopy.Tree.Sidecar

namespace VerifiedCopy
namespace Tree

/-- Save the tree without its upper nodes. -/
def save (t : Tree) (p : Path) (d : Disk) : Except Error Unit × Disk :=
  d.save p t.encode

/-- Load a tree. -/
def load (p : Path) (d : Disk) : Except Error Tree × Disk :=
  match d.load p with
  | (.error e, d) => (.error (e.within s!"read {p}"), d)
  | (.ok b, d) => (decode b, d)

/-- Load a tree that has to have the given layout. -/
def loadFor (p : Path) (layout : Layout) (d : Disk) : Except Error Tree × Disk :=
  match load p d with
  | (.error e, d) => (.error e, d)
  | (.ok t, d) =>
    if t.layout = layout then (.ok t, d)
    else (.error (.treeMismatch layout.describe t.layout.describe), d)

/-- The tree of an open file of `len` bytes. -/
def ofHandle (h : Handle) (len : Nat) (chunkSize : UInt32) (d : Disk) : Except Error Tree × Disk :=
  match Layout.ofSizes len chunkSize with
  | .error e => (.error e, d)
  | .ok layout =>
    if len = 0 then (build layout [], d)
    else
      match h.node, d.readAll h with
      | .directory, (_, d) => (.error (IoError.noDevice.within s!"mmap {h.path}"), d)
      | _, (.error e, d) => (.error (e.within s!"mmap {h.path}"), d)
      | _, (.ok b, d) => (ofContent b chunkSize, d)

/-- The tree of a complete local file. -/
def ofFile (p : Path) (chunkSize : UInt32) (d : Disk) : Except Error Tree × Disk :=
  match d.openRead p with
  | (.error e, d) => (.error (e.within s!"open {p}"), d)
  | (.ok h, d) =>
    match d.stat h with
    | (.error e, d) => (.error (e.within s!"stat {p}"), d)
    | (.ok len, d) => ofHandle h len chunkSize d

/-- What a comparison of a local file with a tree has found. -/
structure Report where
  chunksOk : Nat
  chunksBad : Nat
  badIndices : List Nat
  rootOk : Bool
deriving DecidableEq

/-- Whether nothing is wrong. -/
def Report.isClean (r : Report) : Bool := r.chunksBad == 0 && r.rootOk

/-- Compare the tree of a local file with this one. -/
def report (t found : Tree) (p : Path) : Except Error Report := do
  if found.layout ≠ t.layout then
    throw (.treeMismatch t.layout.describe s!"{found.layout.describe} ({p})")
  let bad ← t.diff found
  return ⟨t.layout.chunkCount - bad.length, bad.length, bad, found.root == t.root⟩

/-- Hash every chunk of a local file again and compare. -/
def verifyLocal (t : Tree) (p : Path) (d : Disk) : Except Error Report × Disk :=
  match ofFile p (UInt32.ofNat t.layout.chunkSize) d with
  | (.error e, d) => (.error e, d)
  | (.ok found, d) => (t.report found p, d)

end Tree
end VerifiedCopy
