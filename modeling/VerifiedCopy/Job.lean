/-
# Transfer jobs

A job brings a set of chunks in, one after the other in ascending order. Chunks
that are verified when it starts count as done at once; the others wait in a
queue. The first failure, or a call to `cancel`, stops the job from taking
another chunk; a chunk that was taken is carried to its end. A finished job
saves the ledger and then has a result: failed with the first failure, cancelled
if chunks were left in the queue, and a success otherwise.

A job is data, so that it can be driven in small steps: `next` takes a chunk
from the queue, `carryOut` brings it in, `advance` does both a number of times,
`finish` ends the job, and `run` does all of it.

Key definitions: `Job`, `Job.create`, `Job.next`, `Job.carryOut`, `Job.advance`,
`Job.cancel`, `Job.finish`, `Job.run`, `download`.
-/
import VerifiedCopy.Entry
import VerifiedCopy.Fetcher
import VerifiedCopy.Progress

namespace VerifiedCopy

/-- What became of a job. -/
inductive JobResult where
  | success
  | failed (e : Error)
  | cancelled
deriving DecidableEq

namespace JobResult

/-- Whether the job brought everything in. -/
def isSuccess (r : JobResult) : Bool := decide (r = success)

/-- Nothing on success, and the failure otherwise. -/
def toExcept : JobResult → Except Error Unit
  | success => .ok ()
  | failed e => .error e
  | cancelled => .error .cancelled

/-- The status that goes with a result. -/
def status : JobResult → JobStatus
  | success => .complete
  | failed _ => .failed
  | cancelled => .cancelled

end JobResult

/-- A transfer of a set of chunks. -/
structure Job where
  progress : Progress
  /-- The chunks that nobody has taken yet, ascending. -/
  queue : List Nat
  /-- Whether no more chunks are to be taken. -/
  stopped : Bool := false
  /-- The first failure. -/
  failure : Option Error := none
  result : Option JobResult := none

namespace Job

variable {σ : Type} [RangeSource σ]

/-- The chunks among `indices`, ascending and each once. -/
def wanted (l : Layout) (indices : List Nat) : List Nat :=
  (List.range l.chunkCount).filter fun i => indices.contains i

/-- The counters at the start: verified chunks are done. -/
def startProgress (l : Layout) (g : Ledger) (indices : List Nat) : Progress :=
  indices.foldl
    (fun p i => if g.state i = .verified then p.addChunk (UInt64.ofNat (l.chunkLen i)) else p)
    { bytesTotal := UInt64.ofNat (l.bytesIn indices), chunksTotal := UInt64.ofNat indices.length }

/-- A job for some chunks. They may be named in any order and more than once,
and all have to exist; the smallest that does not is named. -/
def create (l : Layout) (g : Ledger) (indices : List Nat) : Except Error Job :=
  match (indices.filter fun i => l.chunkCount ≤ i).min? with
  | some bad => .error (.invalidConfiguration s!"chunk {bad} outside 0..{l.chunkCount}")
  | none =>
    let chunks := wanted l indices
    .ok { progress := startProgress l g chunks,
          queue := chunks.filter fun i => g.state i ≠ .verified }

/-- Remember a failure if it is the first one, and stop. -/
def fail (j : Job) (e : Error) : Job :=
  { j with failure := j.failure.or (some e), stopped := true }

/-- Take no more chunks. -/
def cancel (j : Job) : Job := { j with stopped := true }

/-- Take the next chunk. -/
def next (j : Job) : Option (Nat × Job) :=
  if j.stopped then none
  else
    match j.queue with
    | [] => none
    | i :: rest => some (i, { j with queue := rest })

/-- Write down what became of chunk `i`. A chunk that was fetched also counts
towards the next saving of the ledger. -/
def record (j : Job) (i : Nat) (r : Except Error ChunkOutcome) (f : Fetcher) (s : Site σ) :
    Job × Fetcher × Site σ :=
  match r with
  | .error e => (j.fail e, f, s)
  | .ok (.fetched bytes) =>
    let j := { j with progress := j.progress.addChunk (UInt64.ofNat bytes) }
    match f.noteFetched s with
    | (.error e, f, s) => (j.fail e, f, s)
    | (.ok (), f, s) => (j, f, s)
  | .ok _ =>
    ({ j with progress := j.progress.addChunk (UInt64.ofNat (f.layout.chunkLen i)) }, f, s)

/-- Bring in chunk `i`, which was taken from the queue. -/
def carryOut (j : Job) (i : Nat) (f : Fetcher) (s : Site σ) : Job × Fetcher × Site σ :=
  let (r, s) := f.ensure i s
  j.record i r f s

/-- Take and bring in at most `n` chunks. -/
def advance : Nat → Job → Fetcher → Site σ → Job × Fetcher × Site σ
  | 0, j, f, s => (j, f, s)
  | n + 1, j, f, s =>
    match j.next with
    | none => (j, f, s)
    | some (i, j) =>
      let (j, f, s) := j.carryOut i f s
      advance n j f s

/-- Take and bring in at most `n` chunks, up to the first one that is to be held
back, seen from the ledger of the moment. That one is taken and told, but not
brought in. -/
def advanceTo (holdBack : Nat → Ledger → Bool) :
    Nat → Job → Fetcher → Site σ → Option Nat × Job × Fetcher × Site σ
  | 0, j, f, s => (none, j, f, s)
  | n + 1, j, f, s =>
    match j.next with
    | none => (none, j, f, s)
    | some (i, j) =>
      if holdBack i s.ledger then (some i, j, f, s)
      else
        let (j, f, s) := j.carryOut i f s
        advanceTo holdBack n j f s

omit [RangeSource σ] in
/-- What becomes of a job that takes no more chunks. -/
def outcome (j : Job) : JobResult :=
  match j.failure with
  | some e => .failed e
  | none => if j.queue.isEmpty then .success else .cancelled

omit [RangeSource σ] in
/-- Save the ledger and end the job. -/
def finish (j : Job) (f : Fetcher) (s : Site σ) : Job × Fetcher × Site σ :=
  let (r, f, s) := f.flush s
  let j := match r with
    | .ok () => j
    | .error e => j.fail e
  ({ j with
      result := some j.outcome
      progress := { j.progress with status := j.outcome.status } }, f, s)

/-- Bring in all chunks in the queue, as long as nothing fails, and end the
job. -/
def run (j : Job) (f : Fetcher) (s : Site σ) : Job × Fetcher × Site σ :=
  let (j, f, s) := j.advance j.queue.length f s
  j.finish f s

end Job

/-- What is needed to bring chunks of an entry in: a fetcher of its own and a
job that has not begun. -/
def prepareDownload (config : TransferConfig) (entry : Entry) (tree : Tree) (ledger : Ledger)
    (localFile : LocalFile) (indices : List Nat) : Except Error (Fetcher × Job) := do
  config.validate
  entry.check tree
  let f ← Fetcher.create tree ledger localFile config
  let j ← Job.create f.layout ledger indices
  return (f, j)

/-- Bring chunks of an entry in. The fetcher is given up at the end. -/
def download {σ : Type} [RangeSource σ] (config : TransferConfig) (entry : Entry) (tree : Tree)
    (localFile : LocalFile) (indices : List Nat) (s : Site σ) : Except Error Job × Site σ :=
  match prepareDownload config entry tree s.ledger localFile indices with
  | .error e => (.error e, s)
  | .ok (f, j) =>
    let (j, f, s) := j.run f s
    (.ok j, f.close s)

end VerifiedCopy
