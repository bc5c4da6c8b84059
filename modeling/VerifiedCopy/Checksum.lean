/-
# CRC-32

The checksum that closes every sidecar: the cyclic redundancy check with the
reflected polynomial `0xEDB88320`, an all-ones start and a complemented end.
It is written one bit at a time on a 32-bit register, because the register's
step is linear over exclusive or and one-to-one, and that is where its power to
detect damage comes from.

Key definitions: `step`, `absorb`, `crc32`.
-/
import VerifiedCopy.Bytes

namespace VerifiedCopy
namespace Checksum

/-- The reflected generator polynomial. -/
def polynomial : BitVec 32 := 0xEDB88320#32

/-- One bit of the division: shift right, and subtract the polynomial when a
one falls out. -/
def step (r : BitVec 32) : BitVec 32 :=
  if r.getLsbD 0 then (r >>> 1) ^^^ polynomial else r >>> 1

/-- `n` bits of the division. -/
def steps : Nat → BitVec 32 → BitVec 32
  | 0, r => r
  | n + 1, r => steps n (step r)

/-- The register after one more byte. -/
def absorb (r : BitVec 32) (b : UInt8) : BitVec 32 :=
  steps 8 (r ^^^ b.toBitVec.setWidth 32)

/-- The register after a string of bytes. -/
def run (r : BitVec 32) (b : Bytes) : BitVec 32 :=
  b.foldl absorb r

/-- The register before any byte. -/
def initial : BitVec 32 := 0xFFFFFFFF#32

/-- The CRC-32 of a string of bytes. -/
def crc32 (b : Bytes) : BitVec 32 :=
  run initial b ^^^ initial

/-- The CRC-32 of `b` as four bytes, least significant first. -/
def trailer (b : Bytes) : Bytes :=
  Bytes.ofNatLE 4 (crc32 b).toNat

@[simp] theorem length_trailer (b : Bytes) : (trailer b).length = 4 := by
  simp [trailer]

theorem run_append (r : BitVec 32) (a b : Bytes) : run r (a ++ b) = run (run r a) b := by
  simp [run]

end Checksum
end VerifiedCopy
