/-
# Byte ranges

A range `[start, stop)` of positions in a file, with its bounds in order. The
set of positions it describes is `contains`; the other predicates are stated on
the bounds, and say of ranges that are not empty what they seem to say of the
sets.

Key definitions: `ByteRange`, `ByteRange.contains`, `overlaps`, `intersect?`.
-/
import VerifiedCopy.Error

namespace VerifiedCopy

/-- The positions from `start` up to `stop`, `stop` left out. -/
structure ByteRange where
  start : Nat
  stop : Nat
  start_le_stop : start ≤ stop
deriving DecidableEq

namespace ByteRange

/-- The positions are 64-bit numbers. -/
def limit : Nat := UInt64.size

/-- The range with the given bounds, unless they are out of order. -/
def ofBounds (start stop : Nat) : Except Error ByteRange :=
  if h : start ≤ stop then .ok ⟨start, stop, h⟩
  else .error (.invalidRange start stop)

/-- The range with the given bounds, unless they are negative or out of
order. -/
def ofSigned (start stop : Int) : Except Error ByteRange :=
  if h : 0 ≤ start ∧ start ≤ stop then .ok ⟨start.toNat, stop.toNat, by omega⟩
  else .error (.invalidRange start stop)

/-- The `len` positions from `offset` on, unless the end is not a position. -/
def ofLength (offset len : Nat) : Except Error ByteRange :=
  if offset + len < limit then .ok ⟨offset, offset + len, by omega⟩
  else .error (.invalidRange offset (offset + len : Nat))

/-- The number of positions. -/
def size (r : ByteRange) : Nat := r.stop - r.start

/-- Whether there is no position. -/
def isEmpty (r : ByteRange) : Bool := r.start == r.stop

/-- Whether a position lies in the range. -/
def contains (r : ByteRange) (offset : Nat) : Bool :=
  decide (r.start ≤ offset) && decide (offset < r.stop)

/-- Whether the bounds of `r` enclose those of `other`. An empty range is
enclosed by every range whose bounds enclose its place. -/
def encloses (r other : ByteRange) : Bool :=
  decide (r.start ≤ other.start) && decide (other.stop ≤ r.stop)

/-- Whether each range starts before the other one stops. An empty range
overlaps a range that it lies strictly inside of. -/
def overlaps (a b : ByteRange) : Bool :=
  decide (a.start < b.stop) && decide (b.start < a.stop)

/-- The common positions, if there are any. -/
def intersect? (a b : ByteRange) : Option ByteRange :=
  let start := max a.start b.start
  let stop := min a.stop b.stop
  if h : start < stop then some ⟨start, stop, by omega⟩ else none

/-- The order by start, then by stop. -/
def order (a b : ByteRange) : Ordering :=
  (compare a.start b.start).then (compare a.stop b.stop)

/-- The range in the notation of half-open intervals. -/
def text (r : ByteRange) : String := s!"[{r.start}, {r.stop})"

end ByteRange
end VerifiedCopy
