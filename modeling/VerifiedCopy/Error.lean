/-
# What can go wrong

`FetchError` is the failure of one request for a range, `Error` every failure
that a caller of this library can see. A cause is a constructor and its text is
a function of it (`message`), so that a statement names causes and not wordings.
`FetchError.isTransient` says which failures are worth another attempt, and
`Error.chunk?` which failures concern a single chunk.

Key definitions: `ChunkState`, `FetchError`, `Error`, `Error.forChunk`.
-/
import VerifiedCopy.Duration

namespace VerifiedCopy

/-- What is known of one chunk of the local file. -/
inductive ChunkState where
  /-- No verdict has been reached. -/
  | absent
  /-- Somebody holds the right to fetch the chunk. -/
  | fetching
  /-- The local bytes were checked against the leaf. -/
  | verified
  /-- The last verdict was bad. -/
  | invalid
deriving DecidableEq

namespace ChunkState

/-- The name of a state. -/
def name : ChunkState → String
  | absent => "Absent"
  | fetching => "Fetching"
  | verified => "Verified"
  | invalid => "Invalid"

end ChunkState

/-- The failure of one request for a range. -/
inductive FetchError where
  /-- No answer within the time allowed. -/
  | timeout (limit : Duration)
  /-- The remote refused with a status code. -/
  | status (code : Nat)
  /-- The answer does not have the length asked for. -/
  | shortRead (expected got : Nat)
  /-- The connection failed. -/
  | transport (text : String)
  /-- The medium behind the source failed. -/
  | io (text : String)
deriving DecidableEq

namespace FetchError

/-- The name of the cause. -/
def name : FetchError → String
  | timeout _ => "Timeout"
  | status _ => "Status"
  | shortRead _ _ => "ShortRead"
  | transport _ => "Transport"
  | io _ => "Io"

/-- The text of a failure. -/
def message : FetchError → String
  | timeout limit => s!"request timed out after {limit.text}"
  | status code => s!"remote returned status {code}"
  | shortRead expected got => s!"short read: expected {expected} bytes, got {got}"
  | transport text => s!"transport error: {text}"
  | io text => s!"source I/O error: {text}"

/-- Whether another attempt can reasonably succeed. -/
def isTransient : FetchError → Bool
  | timeout _ | transport _ | shortRead _ _ => true
  | status code => (500 ≤ code && code ≤ 599) || code == 408 || code == 429
  | io _ => false

end FetchError

/-- Every failure that a caller can see. -/
inductive Error where
  /-- The bounds are in the wrong order, negative or too large. -/
  | invalidRange (start stop : Int)
  /-- A setting or an argument makes no sense. -/
  | invalidConfiguration (text : String)
  /-- Two descriptions of the same content disagree. -/
  | treeMismatch (expected found : String)
  /-- The last attempt to fetch a chunk failed. -/
  | fetch (index attempts : Nat) (source : FetchError)
  /-- The last attempt to fetch a chunk brought other bytes. -/
  | chunkCorrupt (index attempts : Nat)
  /-- A range ends past the content. -/
  | rangeOutOfBounds (stop totalSize : Nat)
  /-- A file operation failed. -/
  | io (context message : String)
  /-- A file operation failed while a chunk was being settled. -/
  | localIo (index : Nat) (context message : String)
  /-- A file does not have the form of its kind. -/
  | format (text : String)
  /-- A chunk cannot go from one state to the other. -/
  | illegalTransition (index : Nat) (source target : ChunkState)
  /-- Somebody else holds the lock on a file. -/
  | locked (path : String)
  /-- The transfer was called off. -/
  | cancelled
deriving DecidableEq

namespace Error

/-- The name of the cause. -/
def name : Error → String
  | invalidRange _ _ => "InvalidRange"
  | invalidConfiguration _ => "InvalidConfiguration"
  | treeMismatch _ _ => "TreeMismatch"
  | fetch _ _ _ => "Fetch"
  | chunkCorrupt _ _ => "ChunkCorrupt"
  | rangeOutOfBounds _ _ => "RangeOutOfBounds"
  | io _ _ => "Io"
  | localIo _ _ _ => "LocalIo"
  | format _ => "Format"
  | illegalTransition _ _ _ => "IllegalTransition"
  | locked _ => "Locked"
  | cancelled => "Cancelled"

/-- The text of a failure. -/
def message : Error → String
  | invalidRange start stop => s!"invalid byte range [{start}, {stop})"
  | invalidConfiguration text => s!"invalid configuration: {text}"
  | treeMismatch expected found =>
    s!"merkle tree does not match target: expected {expected}, found {found}"
  | fetch index attempts source =>
    s!"chunk {index}: fetch failed after {attempts} attempt(s): {source.message}"
  | chunkCorrupt index attempts =>
    s!"chunk {index}: content hash mismatch after {attempts} attempt(s)"
  | rangeOutOfBounds stop totalSize =>
    s!"range end {stop} exceeds content size {totalSize}"
  | io context message => s!"{context}: {message}"
  | localIo index context message => s!"chunk {index}: {context}: {message}"
  | format text => s!"malformed sidecar: {text}"
  | illegalTransition index source target =>
    s!"chunk {index}: illegal state transition {source.name} -> {target.name}"
  | locked path => s!"{path} is locked by another process"
  | cancelled => "transfer cancelled"

/-- The chunk that a failure concerns, if it concerns a single one. -/
def chunk? : Error → Option Nat
  | fetch index _ _ | chunkCorrupt index _ | localIo index _ _
  | illegalTransition index _ _ => some index
  | _ => none

/-- A failed file operation, blamed on the chunk being settled. -/
def forChunk (index : Nat) : Error → Error
  | io context message => localIo index context message
  | e => e

end Error

/-- The end of waiting for a chunk: it is good, or it failed. -/
abbrev Outcome := Except Error Unit

end VerifiedCopy
