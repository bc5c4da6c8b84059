/-
# Ledgers on disk

A ledger is opened from its sidecar if there is one, which then has to describe
as many chunks as are wanted, and is started and saved otherwise. It is saved
all or nothing; a ledger that is kept in memory only has nothing to save.

Key definitions: `Ledger.openOrCreate`, `Ledger.persist`.
-/
import VerifiedCopy.Disk.Save
import VerifiedCopy.Ledger.Snapshot

namespace VerifiedCopy
namespace Ledger

/-- Save the ledger to its sidecar, if it has one. -/
def persist (g : Ledger) (d : Disk) : Except Error Unit × Disk :=
  match g.path with
  | none => (.ok (), d)
  | some p => d.save p g.snapshot

/-- The ledger in the content of a sidecar, for `chunkCount` chunks. -/
def ofSidecar (p : Path) (chunkCount : Nat) (b : Bytes) : Except Error Ledger := do
  let g ← restore b
  if g.chunkCount ≠ chunkCount then
    throw (.treeMismatch s!"{chunkCount} chunks" s!"{g.chunkCount} chunks in {p}")
  return { g with path := some p }

/-- The ledger kept under `p`, or a new one that is saved there. -/
def openOrCreate (p : Path) (chunkCount : Nat) (d : Disk) : Except Error Ledger × Disk :=
  if d.has p then
    match d.load p with
    | (.error e, d) => (.error (e.within s!"read {p}"), d)
    | (.ok b, d) => (ofSidecar p chunkCount b, d)
  else
    let g := { empty chunkCount with path := some p }
    match g.persist d with
    | (.error e, d) => (.error e, d)
    | (.ok (), d) => (.ok g, d)

end Ledger
end VerifiedCopy
