/-
# The disk

The files that the library works on. A name leads to a directory or to a file,
and a file is a number with some content, so that an open handle keeps its file
when the name is removed or given to another file. A lock belongs to a file and
is exclusive.

Every operation that can fail takes one tick of a clock and asks the disk's
`weather` for it: the weather may make any operation on any path fail at any
time, and a failing write may leave some of its bytes behind. A disk in fair
weather (`Disk.Fair`) fails only where its content gives it a reason.

Key definitions: `Disk`, `Disk.content?`, `openRead`, `openWrite`, `readAt`,
`writeAt`, `rename`.
-/
import VerifiedCopy.Error
import VerifiedCopy.Bytes

namespace VerifiedCopy

/-- The name of a file or directory; a slash separates it from the directory it
is in. -/
abbrev Path := String

/-- Why an operation on files failed. -/
inductive IoError where
  | notFound
  | notDirectory
  | isDirectory
  | alreadyExists
  | badDescriptor
  | invalidArgument
  | noDevice
  /-- A size that no file can have. -/
  | outOfRange
  /-- The file ends before the bytes asked for. -/
  | endOfFile
  /-- Anything else, in words. -/
  | other (text : String)
deriving DecidableEq

namespace IoError

/-- The name of the kind of failure. -/
def name : IoError → String
  | notFound => "NotFound"
  | notDirectory => "NotADirectory"
  | isDirectory => "IsADirectory"
  | alreadyExists => "AlreadyExists"
  | invalidArgument | outOfRange => "InvalidInput"
  | endOfFile => "UnexpectedEof"
  | badDescriptor | noDevice => "Uncategorized"
  | other _ => "Other"

/-- The text of a failure. -/
def message : IoError → String
  | notFound => "No such file or directory (os error 2)"
  | badDescriptor => "Bad file descriptor (os error 9)"
  | alreadyExists => "File exists (os error 17)"
  | noDevice => "No such device (os error 19)"
  | notDirectory => "Not a directory (os error 20)"
  | isDirectory => "Is a directory (os error 21)"
  | invalidArgument => "Invalid argument (os error 22)"
  | outOfRange => "out of range integral type conversion attempted"
  | endOfFile => "failed to fill whole buffer"
  | other text => text

/-- The failure with the words for what was being done. -/
def within (context : String) (e : IoError) : Error :=
  .io context e.message

end IoError

/-- The kinds of operation that the weather tells apart. -/
inductive FileOp where
  | access
  | stat
  | reserve
  | resize
  | read
  | write
  | sync
  | rename
deriving DecidableEq

/-- A failure that the weather brings; a failing write stores `written` of its
bytes first. -/
structure Fault where
  error : IoError
  written : Nat := 0

/-- What a name leads to. -/
inductive Node where
  | directory
  | file (id : Nat)
deriving DecidableEq

/-- An open file or directory. -/
structure Handle where
  path : Path
  node : Node
  writable : Bool
deriving DecidableEq

/-- All files, their names, and the locks on them. -/
structure Disk where
  names : List (Path × Node) := []
  files : List Bytes := []
  locks : List Nat := []
  clock : Nat := 0
  weather : Nat → FileOp → Path → Option Fault := fun _ _ _ => none

namespace Disk

/-- The disk never fails without a reason of its own. -/
def Fair (d : Disk) : Prop := ∀ t op p, d.weather t op p = none

/-- What the weather brings to the next operation, and the disk after the
tick. -/
def tick (d : Disk) (op : FileOp) (p : Path) : Option Fault × Disk :=
  (d.weather d.clock op p, { d with clock := d.clock + 1 })

/-- The content of a file. -/
def content (d : Disk) (id : Nat) : Bytes := d.files.getD id []

/-- The disk with other content in a file. -/
def setContent (d : Disk) (id : Nat) (b : Bytes) : Disk :=
  { d with files := d.files.set id b }

/-- What a name leads to. -/
def node? (d : Disk) (p : Path) : Option Node := d.names.lookup p

/-- Whether a name leads anywhere. -/
def has (d : Disk) (p : Path) : Bool := (d.node? p).isSome

/-- The content of the file that a name leads to. -/
def content? (d : Disk) (p : Path) : Option Bytes :=
  match d.node? p with
  | some (.file id) => some (d.content id)
  | _ => none

/-- The directory that a name is in: what stands before its last slash. -/
def parent? (p : Path) : Option Path :=
  match p.toList.reverse.dropWhile (· != '/') with
  | [] => none
  | _ :: rest => some (String.ofList rest.reverse)

/-- Why there is nothing under a name, and nothing can be made there. -/
def absence (d : Disk) (p : Path) : IoError :=
  match (parent? p).bind d.node? with
  | some (.file _) => .notDirectory
  | _ => .notFound

/-- Whether a file can be made under a name: its directory has to be there. -/
def hasRoomFor (d : Disk) (p : Path) : Bool :=
  match parent? p with
  | none => true
  | some q => d.node? q == some .directory

/-- The disk without a name. -/
def forget (d : Disk) (p : Path) : Disk :=
  { d with names := d.names.filter (fun e => e.1 != p) }

/-- The disk with a name that leads to the given node. -/
def bind (d : Disk) (p : Path) (n : Node) : Disk :=
  { d.forget p with names := (p, n) :: (d.forget p).names }

/-- A new empty file under a name. -/
def create (d : Disk) (p : Path) : Node × Disk :=
  let n := Node.file d.files.length
  (n, { d.bind p n with files := d.files ++ [[]] })

/-- Open what a name leads to for reading. -/
def openRead (d : Disk) (p : Path) : Except IoError Handle × Disk :=
  match d.tick .access p with
  | (some f, d) => (.error f.error, d)
  | (none, d) =>
    match d.node? p with
    | none => (.error (d.absence p), d)
    | some n => (.ok ⟨p, n, false⟩, d)

/-- Open a file for reading and writing, and make it if need be. -/
def openWrite (d : Disk) (p : Path) : Except IoError Handle × Disk :=
  match d.tick .access p with
  | (some f, d) => (.error f.error, d)
  | (none, d) =>
    match d.node? p with
    | some .directory => (.error .isDirectory, d)
    | some n => (.ok ⟨p, n, true⟩, d)
    | none =>
      if d.hasRoomFor p then
        let (n, d) := d.create p
        (.ok ⟨p, n, true⟩, d)
      else (.error (d.absence p), d)

/-- Open a file for writing, make it if need be, and empty it. -/
def openEmpty (d : Disk) (p : Path) : Except IoError Handle × Disk :=
  match d.openWrite p with
  | (.ok h, d) =>
    match h.node with
    | .file id => (.ok h, d.setContent id [])
    | .directory => (.ok h, d)
  | r => r

/-- The size that is told for a directory. -/
def directorySize : Nat := 4096

/-- The size of an open file. -/
def sizeOf (d : Disk) (h : Handle) : Nat :=
  match h.node with
  | .directory => directorySize
  | .file id => (d.content id).length

/-- Ask for the size of an open file. -/
def stat (d : Disk) (h : Handle) : Except IoError Nat × Disk :=
  match d.tick .stat h.path with
  | (some f, d) => (.error f.error, d)
  | (none, d) => (.ok (d.sizeOf h), d)

/-- Positions in a file are below this. -/
def maxOffset : Nat := 0x8000000000000000

/-- Make room for `size` bytes in an open file; the file grows if it is
shorter. -/
def reserve (d : Disk) (h : Handle) (size : Nat) : Except IoError Unit × Disk :=
  match d.tick .reserve h.path with
  | (some f, d) => (.error f.error, d)
  | (none, d) =>
    if maxOffset ≤ size then (.error .invalidArgument, d)
    else
      match h.node with
      | .directory => (.error .invalidArgument, d)
      | .file id =>
        (.ok (), d.setContent id ((d.content id).resize (max size (d.content id).length)))

/-- Cut or fill up an open file to `size` bytes. -/
def resize (d : Disk) (h : Handle) (size : Nat) : Except IoError Unit × Disk :=
  match d.tick .resize h.path with
  | (some f, d) => (.error f.error, d)
  | (none, d) =>
    if maxOffset ≤ size then (.error .outOfRange, d)
    else
      match h.node with
      | .directory => (.error .invalidArgument, d)
      | .file id => (.ok (), d.setContent id ((d.content id).resize size))

/-- The `len` bytes at `offset` that an open file holds, all of them. -/
def bytesAt (d : Disk) (h : Handle) (offset len : Nat) : Except IoError Bytes :=
  if maxOffset ≤ offset + len then .error .invalidArgument
  else
    match h.node with
    | .directory => .error .isDirectory
    | .file id =>
      let b := (d.content id).slice offset len
      if b.length = len then .ok b else .error .endOfFile

/-- Read exactly `len` bytes at `offset`. Nothing is done if `len` is zero. -/
def readAt (d : Disk) (h : Handle) (offset len : Nat) : Except IoError Bytes × Disk :=
  if len = 0 then (.ok [], d)
  else
    match d.tick .read h.path with
    | (some f, d) => (.error f.error, d)
    | (none, d) => (d.bytesAt h offset len, d)

/-- Read all of an open file. -/
def readAll (d : Disk) (h : Handle) : Except IoError Bytes × Disk :=
  match d.tick .read h.path with
  | (some f, d) => (.error f.error, d)
  | (none, d) =>
    match h.node with
    | .directory => (.error .isDirectory, d)
    | .file id => (.ok (d.content id), d)

/-- The disk after some bytes have been stored at `offset` of an open file. -/
def store (d : Disk) (h : Handle) (offset : Nat) (b : Bytes) : Disk :=
  match h.node with
  | .directory => d
  | .file id => d.setContent id ((d.content id).overlay offset b)

/-- Write some bytes at `offset`. Nothing is done if there are none. -/
def writeAt (d : Disk) (h : Handle) (offset : Nat) (b : Bytes) : Except IoError Unit × Disk :=
  if b = [] then (.ok (), d)
  else
    match d.tick .write h.path with
    | (some f, d) => (.error f.error, if h.writable then d.store h offset (b.take f.written) else d)
    | (none, d) =>
      if h.writable = false then (.error .badDescriptor, d)
      else if maxOffset ≤ offset + b.length then (.error .invalidArgument, d)
      else (.ok (), d.store h offset b)

/-- Bring an open file to stable storage. -/
def sync (d : Disk) (h : Handle) : Except IoError Unit × Disk :=
  match d.tick .sync h.path with
  | (some f, d) => (.error f.error, d)
  | (none, d) => (.ok (), d)

/-- Give what is under `source`, the node `n`, the name `target`, in place of
what has it. If both are names of `n` already, both stay. -/
def rebind (d : Disk) (source target : Path) (n : Node) : Disk :=
  if d.node? target = some n then d else (d.forget source).bind target n

/-- Give the file under `source` the name `target`, in place of a file that has
it. -/
def rename (d : Disk) (source target : Path) : Except IoError Unit × Disk :=
  match d.tick .rename source with
  | (some f, d) => (.error f.error, d)
  | (none, d) =>
    match d.node? source with
    | none => (.error (d.absence source), d)
    | some n =>
      if d.node? target = some .directory then (.error .isDirectory, d)
      else if d.hasRoomFor target then (.ok (), d.rebind source target n)
      else (.error (d.absence target), d)

/-- Take the lock on an open file; false if it is taken. -/
def lock (d : Disk) (h : Handle) : Bool × Disk :=
  match h.node with
  | .directory => (true, d)
  | .file id => if id ∈ d.locks then (false, d) else (true, { d with locks := id :: d.locks })

/-- Give back the lock on an open file. -/
def unlock (d : Disk) (h : Handle) : Disk :=
  match h.node with
  | .directory => d
  | .file id => { d with locks := d.locks.erase id }

/-- Remove the name of a file. -/
def remove (d : Disk) (p : Path) : Except IoError Unit × Disk :=
  match d.node? p with
  | none => (.error (d.absence p), d)
  | some .directory => (.error .isDirectory, d)
  | some (.file _) => (.ok (), d.forget p)

/-- Make a directory. -/
def makeDirectory (d : Disk) (p : Path) : Except IoError Unit × Disk :=
  if d.has p then (.error .alreadyExists, d)
  else if d.hasRoomFor p then (.ok (), d.bind p .directory)
  else (.error (d.absence p), d)

/-- Whether a path is in a directory or in a directory inside of it. -/
def isInside (p directory : Path) : Bool :=
  (directory ++ "/").toList.isPrefixOf p.toList

/-- Remove a directory with all that is in it. -/
def removeDirectory (d : Disk) (p : Path) : Except IoError Unit × Disk :=
  match d.node? p with
  | none => (.error (d.absence p), d)
  | some (.file _) => (.error .notDirectory, d)
  | some .directory =>
    (.ok (), { d with names := d.names.filter fun e => e.1 != p && !isInside e.1 p })

/-- What is in a directory: the names, without the directory's, and the sizes,
zero for directories. -/
def entries (d : Disk) (p : Path) : List (String × Nat) :=
  (d.names.filter fun e => parent? e.1 == some p).map fun e =>
    (String.ofList (e.1.toList.drop (p.length + 1)),
      match e.2 with
      | .directory => 0
      | .file id => (d.content id).length)

end Disk
end VerifiedCopy
