/-
# Sources of ranges

A source hands back the bytes of a range of the remote file, or says why not.
It may answer anything: it has a state of its own that changes with every
request, and it may look at the disk, which it cannot change. `Logged` is any
source that also keeps the ranges it was asked for. `FileSource` serves a file,
such as a copy on shared storage.

Key definitions: `RangeSource`, `Logged`, `FileSource`, `FileSource.answer?`.
-/
import VerifiedCopy.Disk
import VerifiedCopy.Range

namespace VerifiedCopy

/-- Something that can be asked for ranges of the remote file. -/
class RangeSource (σ : Type) where
  /-- The answer to a request that may take the given time, and the source
  afterwards. -/
  fetch : σ → Disk → ByteRange → Duration → Except FetchError Bytes × σ

/-- A source with the ranges it was asked for, the first one first. -/
structure Logged (σ : Type) where
  inner : σ
  requests : List ByteRange := []

instance {σ : Type} [RangeSource σ] : RangeSource (Logged σ) where
  fetch s d r limit :=
    let (answer, inner) := RangeSource.fetch s.inner d r limit
    (answer, ⟨inner, s.requests ++ [r]⟩)

/-- A source that serves an open file. -/
structure FileSource where
  handle : Handle

namespace FileSource

/-- A buffer has at most this many bytes. -/
def maxBuffer : Nat := 0x7fffffffffffffff

/-- What is read of a range into a buffer of its size: the bytes, or how many of
them the file holds. -/
def readInto (s : FileSource) (d : Disk) (r : ByteRange) : Except FetchError Bytes :=
  match (d.readAt s.handle r.start r.size).1 with
  | .ok b => .ok b
  | .error .endOfFile =>
    .error (.shortRead r.size (min (d.sizeOf s.handle - r.start) r.size))
  | .error e => .error (.io s!"{s.handle.path}: {e.message}")

/-- The answer to a request. The buffer is made before anything is read; a range
that is too large for one is not answered, as the program breaks off there. -/
def answer? (s : FileSource) (d : Disk) (r : ByteRange) : Option (Except FetchError Bytes) :=
  if r.size ≤ maxBuffer then some (s.readInto d r) else none

/-- The answer to a request, with an error where there is none. -/
def answer (s : FileSource) (d : Disk) (r : ByteRange) : Except FetchError Bytes :=
  (s.answer? d r).getD (.error (.io "capacity overflow"))

end FileSource

instance : RangeSource FileSource where
  fetch s d r _ := (s.answer d r, s)

end VerifiedCopy
