/-
# The local file

The local copy of the content: an open file of a size fixed when it was opened.
Chunks are read and written by position. A write is brought to stable storage
before it counts. The file can be locked, and closing it gives the lock back.

Key definitions: `LocalFile`, `LocalFile.openSized`, `readRange`, `writeDurable`.
-/
import VerifiedCopy.Disk
import VerifiedCopy.Range

namespace VerifiedCopy

/-- The local copy of the content. -/
structure LocalFile where
  handle : Handle
  totalSize : Nat
  locked : Bool := false
deriving DecidableEq

namespace LocalFile

/-- The name that the file was opened under. -/
def path (f : LocalFile) : Path := f.handle.path

/-- Give an open file its size: room is reserved first if it has to grow, as far
as the disk can do that. -/
def fit (h : Handle) (totalSize len : Nat) (d : Disk) : Except Error LocalFile × Disk :=
  if len = totalSize then (.ok ⟨h, totalSize, false⟩, d)
  else
    let d := if len < totalSize then (d.reserve h totalSize).2 else d
    match d.resize h totalSize with
    | (.error e, d) => (.error (e.within s!"resize {h.path}"), d)
    | (.ok (), d) => (.ok ⟨h, totalSize, false⟩, d)

/-- Open or make the file and give it its size. -/
def openSized (p : Path) (totalSize : Nat) (d : Disk) : Except Error LocalFile × Disk :=
  match d.openWrite p with
  | (.error e, d) => (.error (e.within s!"open {p}"), d)
  | (.ok h, d) =>
    match d.stat h with
    | (.error e, d) => (.error (e.within s!"stat {p}"), d)
    | (.ok len, d) => fit h totalSize len d

/-- Take a file that is open already, with the size it has. -/
def ofHandle (h : Handle) (d : Disk) : Except Error LocalFile × Disk :=
  match d.stat h with
  | (.error e, d) => (.error (e.within s!"stat {h.path}"), d)
  | (.ok len, d) => (.ok ⟨h, len, false⟩, d)

/-- Lock the file for as long as it is open. -/
def lock (f : LocalFile) (d : Disk) : Except Error LocalFile × Disk :=
  match d.lock f.handle with
  | (true, d) => (.ok { f with locked := true }, d)
  | (false, d) => (.error (.locked f.path), d)

/-- Close the file. -/
def close (f : LocalFile) (d : Disk) : Disk :=
  if f.locked then d.unlock f.handle else d

/-- Read `len` bytes at `offset`. -/
def readAt (f : LocalFile) (offset len : Nat) (d : Disk) : Except Error Bytes × Disk :=
  let (r, d) := d.readAt f.handle offset len
  (r.mapError (IoError.within s!"read {len} bytes at {offset} from {f.path}"), d)

/-- Read a range. -/
def readRange (f : LocalFile) (r : ByteRange) (d : Disk) : Except Error Bytes × Disk :=
  f.readAt r.start r.size d

/-- Write some bytes at `offset` and bring them to stable storage. -/
def writeDurable (f : LocalFile) (offset : Nat) (b : Bytes) (d : Disk) :
    Except Error Unit × Disk :=
  match d.writeAt f.handle offset b with
  | (.error e, d) => (.error (e.within s!"write {b.length} bytes at {offset} to {f.path}"), d)
  | (.ok (), d) =>
    let (r, d) := d.sync f.handle
    (r.mapError (IoError.within s!"sync {f.path}"), d)

/-- The bytes that the file holds now. -/
def content (f : LocalFile) (d : Disk) : Bytes :=
  match f.handle.node with
  | .directory => []
  | .file id => d.content id

end LocalFile
end VerifiedCopy
