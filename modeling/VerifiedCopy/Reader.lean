/-
# Verified reads

A reader gives out bytes of the content at any position. Every byte belongs to a
chunk that is verified; chunks that are missing are fetched on the way, and with
`recheckLocal` the local bytes of a chunk are hashed again the first time that
the reader touches it.

Reads that follow one another make the reader sequential: after `readaheadAfter`
reads, each from where the last one ended, every read hands the next
`readaheadChunks` chunks to a job, and no chunk twice while the streak lasts.

`fill` is the read itself and `noteRead` the decision about reading ahead;
`read` does both and brings the job in.

Key definitions: `Reader`, `Reader.create`, `ensureChunk`, `fill`, `noteRead`,
`read`, `prebuffer`, `close`.
-/
import VerifiedCopy.Job

namespace VerifiedCopy

/-- What a reader remembers of the reads so far. -/
structure ReadAhead where
  /-- Where the last read ended. -/
  nextOffset : Option Nat := none
  /-- How many reads in a row started where the one before had ended. -/
  streak : Nat := 0
  /-- Chunks below this were handed to a job in this streak. -/
  dispatchedTo : Nat := 0
deriving DecidableEq

/-- The largest number of reads that a streak is counted to. -/
def ReadAhead.maxStreak : Nat := UInt32.size - 1

/-- The memory after one more read, as far as the streak goes. -/
def ReadAhead.follow (a : ReadAhead) (range : ByteRange) : ReadAhead :=
  if a.nextOffset = some range.start then
    { a with nextOffset := some range.stop, streak := min (a.streak + 1) maxStreak }
  else { nextOffset := some range.stop, streak := 0, dispatchedTo := 0 }

/-- A reader of one local copy. -/
structure Reader where
  fetcher : Fetcher
  config : ReaderConfig
  /-- The chunks whose local bytes were hashed again. -/
  checked : List Nat := []
  ahead : ReadAhead := {}
  /-- The latest job that read ahead. -/
  latest : Option Job := none

namespace Reader

variable {σ : Type} [RangeSource σ]

/-- A reader, if the tree has the size of the entry, the settings make sense and
the parts describe the same content. -/
def create (entry : Entry) (tree : Tree) (ledger : Ledger) (localFile : LocalFile)
    (transfer : TransferConfig) (config : ReaderConfig) : Except Error Reader := do
  if entry.totalSize ≠ tree.layout.totalSize then
    throw (.treeMismatch s!"total_size={entry.totalSize}" s!"total_size={tree.layout.totalSize}")
  transfer.validate
  let fetcher ← Fetcher.create tree ledger localFile transfer
  return { fetcher, config }

/-- The number of bytes that can be read. -/
def size (r : Reader) : Nat := r.fetcher.layout.totalSize

/-- Whether there is nothing to read. -/
def isEmpty (r : Reader) : Bool := r.size == 0

/-- Nothing can be read past the end. -/
def checkBounds (r : Reader) (range : ByteRange) : Except Error Unit :=
  if r.size < range.stop then .error (.rangeOutOfBounds range.stop r.size) else .ok ()

/-- Hash the local bytes of chunk `i` again, unless that is not wanted or was
done. -/
def recheckOnce (r : Reader) (i : Nat) (s : Site σ) : Except Error Unit × Reader × Site σ :=
  if r.config.recheckLocal && !r.checked.contains i then
    match r.fetcher.recheck i s with
    | (.error e, s) => (.error e, r, s)
    | (.ok _, s) => (.ok (), { r with checked := i :: r.checked }, s)
  else (.ok (), r, s)

/-- Make sure that chunk `i` can be given out. -/
def ensureChunk (r : Reader) (i : Nat) (s : Site σ) : Except Error Unit × Reader × Site σ :=
  match r.recheckOnce i s with
  | (.error e, r, s) => (.error e, r, s)
  | (.ok (), r, s) =>
    match r.fetcher.ensure i s with
    | (.error e, s) => (.error e, r, s)
    | (.ok (.fetched _), s) =>
      let (e, f, s) := r.fetcher.noteFetched s
      (e, { r with fetcher := f }, s)
    | (.ok _, s) => (.ok (), r, s)

/-- Make sure that some chunks can be given out, up to the first failure. -/
def ensureChunks : List Nat → Reader → Site σ → Except Error Unit × Reader × Site σ
  | [], r, s => (.ok (), r, s)
  | i :: rest, r, s =>
    match r.ensureChunk i s with
    | (.error e, r, s) => (.error e, r, s)
    | (.ok (), r, s) => ensureChunks rest r s

/-- The bytes of a range inside the content. -/
def fill (r : Reader) (range : ByteRange) (s : Site σ) : Except Error Bytes × Reader × Site σ :=
  match ensureChunks (r.fetcher.layout.overlapping range) r s with
  | (.error e, r, s) => (.error e, r, s)
  | (.ok (), r, s) =>
    let (b, d) := r.fetcher.localFile.readRange range s.disk
    (b, r, { s with disk := d })

/-- The chunk after the last one to read ahead, when `last` was just read. -/
def windowEnd (r : Reader) (last : Nat) : Nat :=
  min (last + 1 + r.config.readaheadChunks.toNat) r.fetcher.layout.chunkCount

/-- Remember a read, and say which chunks are to be read ahead now: those of the
window that were not handed out in this streak and are not verified. -/
def noteRead (r : Reader) (range : ByteRange) (g : Ledger) : List Nat × Reader :=
  if r.config.readaheadChunks = 0 then ([], r)
  else
    let ahead := r.ahead.follow range
    if ahead.streak < r.config.readaheadAfter.toNat then ([], { r with ahead })
    else
      match r.fetcher.layout.chunkIndexOf? (range.stop - 1) with
      | none => ([], { r with ahead })
      | some last =>
        let first := max (last + 1) ahead.dispatchedTo
        let window := (List.range' first (r.windowEnd last - first)).filter
          fun i => g.state i ≠ .verified
        (window, { r with
          ahead := { ahead with dispatchedTo := max ahead.dispatchedTo (r.windowEnd last) } })

/-- A job for the reader's own fetcher. -/
def startJob (r : Reader) (indices : List Nat) (g : Ledger) : Except Error Job :=
  Job.create r.fetcher.layout g indices

/-- A job for every chunk that a range overlaps. -/
def preparePrebuffer (r : Reader) (range : ByteRange) (g : Ledger) : Except Error Job := do
  r.checkBounds range
  r.startJob (r.fetcher.layout.overlapping range) g

/-- Run a job on the reader's own fetcher. -/
def runJob (r : Reader) (j : Job) (s : Site σ) : Job × Reader × Site σ :=
  let (j, f, s) := j.run r.fetcher s
  (j, { r with fetcher := f }, s)

/-- Read ahead as a read just asked for. -/
def readAhead (r : Reader) (window : List Nat) (s : Site σ) : Reader × Site σ :=
  if window.isEmpty then (r, s)
  else
    match r.startJob window s.ledger with
    | .error _ => (r, s)
    | .ok j =>
      let (j, r, s) := r.runJob j s
      ({ r with latest := some j }, s)

/-- The bytes of a range and the chunks to read ahead. An empty range inside the
content needs no chunk, and is not remembered as a read. -/
def readRange (r : Reader) (range : ByteRange) (s : Site σ) :
    Except Error (Bytes × List Nat) × Reader × Site σ :=
  match r.checkBounds range with
  | .error e => (.error e, r, s)
  | .ok () =>
    if range.isEmpty then (.ok ([], []), r, s)
    else
      match r.fill range s with
      | (.error e, r, s) => (.error e, r, s)
      | (.ok b, r, s) =>
        let (window, r) := r.noteRead range s.ledger
        (.ok (b, window), r, s)

/-- Read a range, and read ahead if it is time. -/
def read (r : Reader) (range : ByteRange) (s : Site σ) : Except Error Bytes × Reader × Site σ :=
  match r.readRange range s with
  | (.error e, r, s) => (.error e, r, s)
  | (.ok (b, window), r, s) =>
    let (r, s) := r.readAhead window s
    (.ok b, r, s)

/-- Bring in every chunk that a range overlaps. -/
def prebuffer (r : Reader) (range : ByteRange) (s : Site σ) : Except Error Job × Reader × Site σ :=
  match r.preparePrebuffer range s.ledger with
  | .error e => (.error e, r, s)
  | .ok j =>
    let (j, r, s) := r.runJob j s
    (.ok j, r, s)

omit [RangeSource σ] in
/-- Give the reader up. -/
def close (r : Reader) (s : Site σ) : Site σ := r.fetcher.close s

end Reader
end VerifiedCopy
