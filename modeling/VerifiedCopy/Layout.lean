/-
# Chunk layouts

A file of `totalSize` bytes is cut into chunks of `chunkSize` bytes, the last
one possibly shorter. The chunks are numbered with 32-bit numbers, so a layout
exists only if there are fewer than `2 ^ 32` of them; with a 32-bit chunk size
this also keeps the total size below `2 ^ 64` (`totalSize_lt`).

Key definitions: `Layout`, `Layout.ofSizes`, `chunkRange?`, `chunkIndexOf?`,
`overlapSpan`, `defaultChunkSize`.
-/
import VerifiedCopy.Range

namespace VerifiedCopy

/-- `a / b` rounded up. -/
def ceilDiv (a b : Nat) : Nat := (a + b - 1) / b

/-- How a file is cut into chunks. -/
structure Layout where
  totalSize : Nat
  chunkSize : Nat
  chunkSize_pos : 0 < chunkSize
  chunkSize_lt : chunkSize < UInt32.size
  chunkCount_lt : ceilDiv totalSize chunkSize < UInt32.size
deriving DecidableEq

namespace Layout

/-- The layout with the given sizes, unless chunks would be empty or too
many. -/
def ofSizes (totalSize : Nat) (chunkSize : UInt32) : Except Error Layout :=
  if hpos : 0 < chunkSize.toNat then
    let count := ceilDiv totalSize chunkSize.toNat
    if hlt : count < UInt32.size then
      .ok ⟨totalSize, chunkSize.toNat, hpos, chunkSize.toNat_lt, hlt⟩
    else
      .error (.invalidConfiguration
        s!"{count} chunks of {chunkSize} bytes exceed the u32 leaf index space")
  else .error (.invalidConfiguration "chunk size must be > 0")

/-- The number of chunks. -/
def chunkCount (l : Layout) : Nat := ceilDiv l.totalSize l.chunkSize

theorem totalSize_le (l : Layout) : l.totalSize ≤ l.chunkCount * l.chunkSize := by
  have h := l.chunkSize_pos
  have := Nat.lt_div_mul_add (a := l.totalSize + l.chunkSize - 1) h
  unfold chunkCount ceilDiv
  omega

/-- The size of a laid out file is a 64-bit number. -/
theorem totalSize_lt (l : Layout) : l.totalSize < UInt64.size := by
  have h₁ : l.chunkCount < UInt32.size := l.chunkCount_lt
  have h₂ := l.chunkSize_lt
  calc l.totalSize ≤ l.chunkCount * l.chunkSize := l.totalSize_le
    _ ≤ UInt32.size * l.chunkSize := Nat.mul_le_mul_right _ (Nat.le_of_lt h₁)
    _ < UInt32.size * UInt32.size := Nat.mul_lt_mul_of_pos_left h₂ (by decide)
    _ = UInt64.size := by decide

theorem mul_chunkSize_lt (l : Layout) {i : Nat} (h : i < l.chunkCount) :
    i * l.chunkSize < l.totalSize := by
  have hpos := l.chunkSize_pos
  unfold chunkCount ceilDiv at h
  have := (Nat.le_div_iff_mul_le hpos).1 (Nat.succ_le_of_lt h)
  rw [Nat.succ_mul] at this
  omega

/-- The positions of chunk `i`. -/
def chunkRange? (l : Layout) (i : Nat) : Option ByteRange :=
  if h : i < l.chunkCount then
    some ⟨i * l.chunkSize, min (i * l.chunkSize + l.chunkSize) l.totalSize, by
      have := l.mul_chunkSize_lt h
      omega⟩
  else none

/-- The number of bytes of chunk `i`, zero if there is no such chunk. -/
def chunkLen (l : Layout) (i : Nat) : Nat :=
  match l.chunkRange? i with
  | some r => r.size
  | none => 0

/-- The number of bytes in some chunks. -/
def bytesIn (l : Layout) : List Nat → Nat
  | [] => 0
  | i :: rest => l.chunkLen i + l.bytesIn rest

/-- The chunk that holds a position. -/
def chunkIndexOf? (l : Layout) (offset : Nat) : Option Nat :=
  if offset < l.totalSize then some (offset / l.chunkSize) else none

/-- The ranges of all chunks, in order. -/
def ranges (l : Layout) : List ByteRange :=
  (List.range l.chunkCount).filterMap l.chunkRange?

/-- The first chunk that has a position in common with `r`, and the one after
the last; both zero if there is none. -/
def overlapSpan (l : Layout) (r : ByteRange) : Nat × Nat :=
  if r.isEmpty || decide (l.totalSize ≤ r.start) then (0, 0)
  else (r.start / l.chunkSize, (min r.stop l.totalSize - 1) / l.chunkSize + 1)

/-- The chunks that have a position in common with `r`, ascending. -/
def overlapping (l : Layout) (r : ByteRange) : List Nat :=
  let span := l.overlapSpan r
  List.range' span.1 (span.2 - span.1)

/-- The sizes and the number of chunks in words. -/
def describe (l : Layout) : String :=
  s!"total_size={l.totalSize} chunk_size={l.chunkSize} leaves={l.chunkCount}"

end Layout

/-- The number of halvings that bring `n` leaves down to one: the least `d`
with `n ≤ 2 ^ d`. -/
def depthFor (n : Nat) : Nat :=
  if n ≤ 1 then 0 else Nat.log2 (n - 1) + 1

/-- The least power of two that is at least `n`, and 1 for zero. -/
def capacityFor (n : Nat) : Nat := Nat.pow 2 (depthFor n)

/-- `chunk` doubled while more than 4096 chunks are needed, at most `n`
times. -/
def doubleWhileMany (totalSize : Nat) : Nat → Nat → Nat
  | 0, chunk => chunk
  | n + 1, chunk =>
    if 4096 < ceilDiv totalSize chunk then doubleWhileMany totalSize n (2 * chunk) else chunk

/-- The number of bytes in 1 MiB. -/
def mebibyte : Nat := 1048576

/-- The chunk size for content of `totalSize` bytes: a power of two from 64 to
64 MiB. Below 1 KiB it is 64, below 1 MiB it is the next power of two, and from
there on 1 MiB, doubled until at most 4096 chunks are needed or 64 MiB is
reached. Empty content has chunks of 1 MiB. -/
def defaultChunkSize (totalSize : Nat) : Nat :=
  if totalSize = 0 then mebibyte
  else if totalSize < 1024 then 64
  else if totalSize < mebibyte then capacityFor totalSize
  else doubleWhileMany totalSize 6 mebibyte

/-- The layout with the default chunk size. -/
def Layout.ofTotalSize (totalSize : Nat) : Except Error Layout :=
  Layout.ofSizes totalSize (UInt32.ofNat (defaultChunkSize totalSize))

end VerifiedCopy
