/-
# Strings of bytes

All content of this library, whether it comes from a remote, from a local file
or from a sidecar, is a list of bytes, so that a statement about content is a
statement about lists. This module holds the three things done to bytes
everywhere: cutting a piece out (`slice`), laying a piece over (`overlay`), and
writing a number in a fixed width, least significant byte first (`ofNatLE`,
`toNatLE`).

Key lemmas: `length_ofNatLE`, `length_overlay`.
-/
namespace VerifiedCopy

/-- A string of bytes. -/
abbrev Bytes := List UInt8

namespace Bytes

/-- The bytes of `b` at positions `start, start + 1, …`, at most `len` of them. -/
def slice (b : Bytes) (start len : Nat) : Bytes :=
  (b.drop start).take len

/-- `b` with `piece` laid over it at `offset`. A gap between the end of `b`
and `offset` is filled with zeros, and an empty piece changes nothing. -/
def overlay (b : Bytes) (offset : Nat) (piece : Bytes) : Bytes :=
  match piece with
  | [] => b
  | _ => (b ++ List.replicate (offset - b.length) 0).take offset ++ piece
      ++ b.drop (offset + piece.length)

/-- `b` cut or filled up with zeros to `size` bytes. -/
def resize (b : Bytes) (size : Nat) : Bytes :=
  b.take size ++ List.replicate (size - b.length) 0

/-- The `width` low bytes of `n`, least significant first. -/
def ofNatLE : Nat → Nat → Bytes
  | 0, _ => []
  | width + 1, n => UInt8.ofNat (n % 256) :: ofNatLE width (n / 256)

/-- The number whose bytes are given, least significant first. -/
def toNatLE : Bytes → Nat
  | [] => 0
  | b :: bs => b.toNat + 256 * toNatLE bs

/-- `b` cut into pieces of `size` bytes, the last one shorter if need be. The
first argument bounds the number of pieces. -/
def piecesUpTo : Nat → Nat → Bytes → List Bytes
  | 0, _, _ => []
  | _ + 1, _, [] => []
  | n + 1, size, b => b.take size :: piecesUpTo n size (b.drop size)

/-- `b` cut into pieces of `size` bytes, the last one shorter if need be. -/
def pieces (size : Nat) (b : Bytes) : List Bytes :=
  piecesUpTo b.length size b

/-- The bytes of a text in UTF-8. -/
def ofText (s : String) : Bytes :=
  s.toUTF8.toList

/-- The text whose UTF-8 form is `b`, if there is one. -/
def toText? (b : Bytes) : Option String :=
  String.fromUTF8? (ByteArray.mk b.toArray)

@[simp] theorem length_ofNatLE (width n : Nat) : (ofNatLE width n).length = width := by
  induction width generalizing n with
  | zero => rfl
  | succ width ih => simp [ofNatLE, ih]

@[simp] theorem length_resize (b : Bytes) (size : Nat) : (b.resize size).length = size := by
  simp [resize]; omega

theorem length_overlay (b : Bytes) (offset : Nat) (piece : Bytes) (h : piece ≠ []) :
    (b.overlay offset piece).length = max b.length (offset + piece.length) := by
  cases piece with
  | nil => exact absurd rfl h
  | cons x xs => simp [overlay]; omega

/-- Content that is long enough keeps its length under a piece laid inside it. -/
theorem length_overlay_of_le (b : Bytes) (offset : Nat) (piece : Bytes)
    (h : offset + piece.length ≤ b.length) : (b.overlay offset piece).length = b.length := by
  cases piece with
  | nil => rfl
  | cons x xs => rw [length_overlay _ _ _ (by simp)]; omega

end Bytes
end VerifiedCopy
