/-
# Cursors

A cursor reads on from a position, which can be set to any 64-bit number, also
past the end; there it reads nothing. A read that fails leaves the position
alone, and so does a seek to a place before the start or from `2 ^ 64` on.

Key definitions: `Cursor`, `Cursor.read`, `Cursor.seek`, `readExact`,
`readToEnd`.
-/
import VerifiedCopy.Reader

namespace VerifiedCopy

/-- Where a seek counts from. -/
inductive SeekFrom where
  | start (offset : Nat)
  | ending (delta : Int)
  | current (delta : Int)
deriving DecidableEq

/-- A reader with a position. -/
structure Cursor where
  reader : Reader
  position : Nat := 0

/-- Why a cursor failed. -/
inductive CursorError where
  /-- The reader failed. -/
  | read (e : Error)
  /-- The place is no position. -/
  | badSeek
  /-- The content ended too early. -/
  | endOfFile
deriving DecidableEq

namespace CursorError

/-- The text of a failure. -/
def message : CursorError → String
  | read e => e.message
  | badSeek => "seek before start of file"
  | endOfFile => "failed to fill whole buffer"

end CursorError

namespace Cursor

variable {σ : Type} [RangeSource σ]

/-- The number of bytes that a read of at most `n` will give. -/
def available (c : Cursor) (n : Nat) : Nat := min n (c.reader.size - c.position)

/-- Read at most `n` bytes and move past them. -/
def read (c : Cursor) (n : Nat) (s : Site σ) : Except CursorError Bytes × Cursor × Site σ :=
  let len := c.available n
  if len = 0 then (.ok [], c, s)
  else
    match ByteRange.ofLength c.position len with
    | .error e => (.error (.read e), c, s)
    | .ok range =>
      match c.reader.read range s with
      | (.error e, r, s) => (.error (.read e), { c with reader := r }, s)
      | (.ok b, r, s) => (.ok b, ⟨r, c.position + len⟩, s)

/-- The place that a seek leads to. -/
def target (c : Cursor) : SeekFrom → Int
  | .start offset => offset
  | .ending delta => c.reader.size + delta
  | .current delta => c.position + delta

omit [RangeSource σ] in
/-- Move to a place, if it is a position. -/
def seek (c : Cursor) (place : SeekFrom) : Except CursorError Nat × Cursor :=
  let t := c.target place
  if 0 ≤ t ∧ t < ByteRange.limit then (.ok t.toNat, { c with position := t.toNat })
  else (.error .badSeek, c)

/-- Read exactly `n` bytes; if there are fewer, they are passed over. -/
def readExact (c : Cursor) (n : Nat) (s : Site σ) : Except CursorError Bytes × Cursor × Site σ :=
  match c.read n s with
  | (.error e, c, s) => (.error e, c, s)
  | (.ok b, c, s) => if b.length = n then (.ok b, c, s) else (.error .endOfFile, c, s)

/-- Read on after `got`, in at most `fuel` reads: first 32 bytes, and then each
time as many as there are already. -/
def readOn : Nat → Bytes → Cursor → Site σ → Except CursorError Bytes × Cursor × Site σ
  | 0, got, c, s => (.ok got, c, s)
  | fuel + 1, got, c, s =>
    match c.read (max 32 got.length) s with
    | (.error e, c, s) => (.error e, c, s)
    | (.ok [], c, s) => (.ok got, c, s)
    | (.ok b, c, s) => readOn fuel (got ++ b) c s

/-- Read everything from the position on. -/
def readToEnd (c : Cursor) (s : Site σ) : Except CursorError Bytes × Cursor × Site σ :=
  readOn (c.reader.size - c.position + 1) [] c s

end Cursor
end VerifiedCopy
