/-
# Snapshots of a ledger

A ledger is kept in a sidecar: a header of 17 bytes, the two rows of bits as
they are, and the CRC-32 of all that. The header holds the magic `VFMRKL01`, a
zero byte, and then, least significant byte first, the version (1) and the
number of chunks. What is being fetched is not written down, so a chunk that was
in flight comes back with whatever verdict it had.

The reader judges in this order: length, checksum, magic, version, length of the
rows. Every refusal is a format error.

Key definitions: `Ledger.snapshot`, `Ledger.restore`.
-/
import VerifiedCopy.Ledger
import VerifiedCopy.Sidecar

namespace VerifiedCopy

/-- The next row of `n` bits and the rest. -/
def Sidecar.takeBits (n : Nat) (b : Bytes) : Except Error (Bits n × Bytes) :=
  if h : bitBytes n ≤ b.length then
    .ok (⟨b.take (bitBytes n), List.length_take_of_le h⟩, b.drop (bitBytes n))
  else .error (.format "truncated sidecar")

namespace Ledger

/-- The magic of a snapshot. -/
def magic : String := "VFMRKL01"

/-- The length of the header. -/
def headerLength : Nat := 17

/-- What the checksum of a snapshot covers. -/
def body (g : Ledger) : Bytes :=
  Bytes.ofText magic ++ [0] ++ Bytes.ofNatLE 4 1 ++ Bytes.ofNatLE 4 g.chunkCount
    ++ g.present.bytes ++ g.valid.bytes

/-- The ledger as the bytes of its sidecar. -/
def snapshot (g : Ledger) : Bytes := Sidecar.withChecksum g.body

/-- The ledger that a snapshot holds; nothing is in flight. -/
def restore (b : Bytes) : Except Error Ledger := do
  let body ← Sidecar.checkedBody "state" headerLength b
  let rest ← Sidecar.takeHeader "state" magic body
  let (chunkCount, rest) ← Sidecar.takeNat 4 rest
  let (present, rest) ← Sidecar.takeBits chunkCount rest
  let (valid, rest) ← Sidecar.takeBits chunkCount rest
  if rest ≠ [] then throw (.format "trailing bytes after state")
  return { chunkCount, present, valid }

end Ledger
end VerifiedCopy
