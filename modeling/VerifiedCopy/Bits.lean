/-
# Rows of bits

A row of `n` bits packed into bytes, the lowest bit of a byte first. It has
`n / 8` bytes, rounded up, and the spare bits of the last byte are kept as they
are. Reading past the last byte gives `false` and writing there changes
nothing.

Key definitions: `Bits`, `Bits.get`, `Bits.set`.
-/
import VerifiedCopy.Bytes

namespace VerifiedCopy

/-- The number of bytes that hold `n` bits. -/
def bitBytes (n : Nat) : Nat := (n + 7) / 8

/-- A row of `n` bits. -/
structure Bits (n : Nat) where
  bytes : Bytes
  length_bytes : bytes.length = bitBytes n
deriving DecidableEq

namespace Bits

/-- A row of zeros. -/
def zeros (n : Nat) : Bits n := ⟨List.replicate (bitBytes n) 0, List.length_replicate⟩

/-- The byte with only bit `k % 8` set. -/
def mask (k : Nat) : UInt8 := UInt8.ofNat (1 <<< (k % 8))

/-- Bit `i`. -/
def get {n : Nat} (b : Bits n) (i : Nat) : Bool :=
  (b.bytes.getD (i / 8) 0).toNat.testBit (i % 8)

/-- A byte with bit `k % 8` set to `on`. -/
def setInByte (x : UInt8) (k : Nat) (on : Bool) : UInt8 :=
  if on then x ||| mask k else x &&& ~~~(mask k)

/-- The row with bit `i` set to `on`. -/
def set {n : Nat} (b : Bits n) (i : Nat) (on : Bool) : Bits n :=
  ⟨b.bytes.set (i / 8) (setInByte (b.bytes.getD (i / 8) 0) i on),
    List.length_set.trans b.length_bytes⟩

@[simp] theorem get_zeros (n i : Nat) : (zeros n).get i = false := by
  by_cases h : i / 8 < bitBytes n <;> simp [zeros, get, List.getD, h]

end Bits
end VerifiedCopy
