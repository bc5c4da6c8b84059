/-
# Progress of a transfer

The counters of a transfer: chunks and bytes that are done, chunks and bytes
wanted, and whether the transfer is still going on. Bytes are only counted for
chunks that passed verification. The counters are 64-bit words and wrap.

Key definitions: `JobStatus`, `Progress`, `Progress.addChunk`,
`Progress.fraction`.
-/
namespace VerifiedCopy

/-- Where a transfer stands. -/
inductive JobStatus where
  | inProgress
  | complete
  | failed
  | cancelled
deriving DecidableEq

namespace JobStatus

/-- Whether the transfer is over. -/
def isTerminal (s : JobStatus) : Bool := decide (s ≠ inProgress)

/-- The name of a status. -/
def name : JobStatus → String
  | inProgress => "InProgress"
  | complete => "Complete"
  | failed => "Failed"
  | cancelled => "Cancelled"

/-- The status with a name. -/
def ofName? (s : String) : Option JobStatus :=
  [inProgress, complete, failed, cancelled].find? fun t => t.name == s

end JobStatus

/-- The counters of one transfer. -/
structure Progress where
  bytesTotal : UInt64
  chunksTotal : UInt64
  bytesDone : UInt64 := 0
  chunksDone : UInt64 := 0
  status : JobStatus := .inProgress
deriving DecidableEq

namespace Progress

/-- Count one verified chunk of `bytes` bytes. -/
def addChunk (p : Progress) (bytes : UInt64) : Progress :=
  { p with bytesDone := p.bytesDone + bytes, chunksDone := p.chunksDone + 1 }

/-- The share of the bytes that is done: the quotient of the two counters, each
taken as a double, and one if nothing is wanted. -/
def fraction (p : Progress) : Float :=
  if p.bytesTotal = 0 then 1 else p.bytesDone.toFloat / p.bytesTotal.toFloat

end Progress
end VerifiedCopy
