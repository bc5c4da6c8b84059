/-
# Digests

A digest is a string of 32 bytes. It is written in lower-case hexadecimal and
read back in either case; a reader says what is wrong with a text that is not
64 hexadecimal digits (`HexError`), the length being judged before the digits.

Key definitions: `Digest`, `Digest.hex`, `Digest.ofHex`.
-/
import VerifiedCopy.Bytes

namespace VerifiedCopy

/-- A 32-byte digest. -/
structure Digest where
  bytes : Bytes
  length_bytes : bytes.length = 32
deriving DecidableEq

namespace Hex

/-- The lower-case hexadecimal digit of a number below 16. -/
def digit (n : Nat) : Char :=
  if n < 10 then Char.ofNat (48 + n) else Char.ofNat (87 + n)

/-- Two digits for each byte. -/
def encode : Bytes → List Char
  | [] => []
  | b :: bs => digit (b.toNat / 16) :: digit (b.toNat % 16) :: encode bs

/-- The value of a hexadecimal digit of either case. -/
def value? (c : UInt8) : Option Nat :=
  let n := c.toNat
  if 48 ≤ n ∧ n ≤ 57 then some (n - 48)
  else if 97 ≤ n ∧ n ≤ 102 then some (n - 87)
  else if 65 ≤ n ∧ n ≤ 70 then some (n - 55)
  else none

/-- The bytes that pairs of digits stand for, or the first byte that is no
digit. A digit left over at the end is ignored. -/
def decode : Bytes → Except UInt8 Bytes
  | h :: l :: rest =>
    match value? h, value? l with
    | none, _ => .error h
    | some _, none => .error l
    | some x, some y => (decode rest).map (UInt8.ofNat (16 * x + y) :: ·)
  | _ => .ok []

/-- A pair of digits makes one byte. -/
theorem length_decode : ∀ {b d : Bytes}, decode b = .ok d → d.length = b.length / 2
  | [], d, h => by cases h; rfl
  | [_], d, h => by cases h; simp
  | h :: l :: rest, d, e => by
    unfold decode at e
    split at e
    · cases e
    · cases e
    · cases hr : decode rest with
      | error x => rw [hr] at e; cases e
      | ok r =>
        rw [hr] at e
        cases e
        have := length_decode hr
        simp only [List.length_cons, this]
        omega

end Hex

/-- Why a text is not a digest. -/
inductive HexError where
  /-- The text has `found` bytes and not 64. -/
  | length (found : Nat)
  /-- The text has 64 bytes, and this one is the first that is no digit. -/
  | digit (byte : UInt8)
deriving DecidableEq

namespace Digest

/-- The digest in lower-case hexadecimal. -/
def hex (d : Digest) : String :=
  String.ofList (Hex.encode d.bytes)

/-- The digest that a text of 64 hexadecimal digits stands for. -/
def ofHexBytes (b : Bytes) : Except HexError Digest :=
  if hlen : b.length = 64 then
    match hdec : Hex.decode b with
    | .error c => .error (.digit c)
    | .ok d => .ok ⟨d, by rw [Hex.length_decode hdec, hlen]⟩
  else .error (.length b.length)

/-- The digest that a text of 64 hexadecimal digits stands for. -/
def ofHex (s : String) : Except HexError Digest :=
  ofHexBytes (Bytes.ofText s)

/-- The digest with the given bytes, if there are 32 of them. -/
def ofBytes? (b : Bytes) : Option Digest :=
  if h : b.length = 32 then some ⟨b, h⟩ else none

@[simp] theorem ofBytes?_bytes (d : Digest) : ofBytes? d.bytes = some d := by
  simp [ofBytes?, d.length_bytes]

end Digest
end VerifiedCopy
