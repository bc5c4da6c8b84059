/-
# Fetching chunks

A fetcher makes single chunks present and verified, for bulk transfers and for
readers alike. Whoever wants a chunk claims it in the ledger first, so at most
one fetch of a chunk is under way. The owner of a claim asks the source for the
chunk's range until the bytes have the chunk's length and digest, writes them to
the local file and settles the claim. A failure that may pass is tried again as
often as the settings allow; a failure of the local file is final.

`recheck` hashes local bytes again that the ledger calls verified. `noteFetched`
counts fetched chunks and saves the ledger after every so many of them.

Key definitions: `Fetcher`, `Fetcher.judge`, `fetchVerified`, `ensure`,
`recheck`, `noteFetched`, `flush`, `close`.
-/
import VerifiedCopy.Config
import VerifiedCopy.LocalFile
import VerifiedCopy.Site
import VerifiedCopy.Tree

namespace VerifiedCopy

/-- How a chunk came to be verified. -/
inductive ChunkOutcome where
  /-- It was verified before the call. -/
  | alreadyVerified
  /-- The call fetched, checked and wrote `bytes` bytes. -/
  | fetched (bytes : Nat)
  /-- Somebody else was fetching it, with success. -/
  | joined
deriving DecidableEq

/-- What fetches the chunks of one local copy. -/
structure Fetcher where
  tree : Tree
  localFile : LocalFile
  config : TransferConfig
  /-- The number of chunks counted since the ledger was last saved. -/
  sincePersist : Nat := 0

/-- What an answer of the source is worth. -/
inductive Judgement where
  /-- The bytes of the chunk. -/
  | good (b : Bytes)
  /-- As many bytes as the chunk has, but not those. -/
  | corrupt
  /-- No answer of the chunk's length. -/
  | failed (e : FetchError)
deriving DecidableEq

namespace Judgement

/-- Whether another attempt can reasonably succeed. -/
def isRetryable : Judgement → Bool
  | good _ => false
  | corrupt => true
  | failed e => e.isTransient

/-- The failure that ends the fetch of chunk `i` with attempt number
`attempts`. -/
def toError (i attempts : Nat) : Judgement → Error
  | failed e => .fetch i attempts e
  | _ => .chunkCorrupt i attempts

end Judgement

namespace Fetcher

variable {σ : Type} [RangeSource σ]

/-- A fetcher, if the settings make sense and the tree, the ledger and the local
file describe the same content. -/
def create (tree : Tree) (ledger : Ledger) (localFile : LocalFile) (config : TransferConfig) :
    Except Error Fetcher := do
  config.validate
  if ledger.chunkCount ≠ tree.leafCount then
    throw (.treeMismatch s!"{tree.leafCount} chunks" s!"{ledger.chunkCount} chunks in state store")
  if localFile.totalSize ≠ tree.layout.totalSize then
    throw (.treeMismatch tree.layout.describe s!"local file of {localFile.totalSize} bytes")
  return { tree, localFile, config }

/-- The layout of the content. -/
def layout (f : Fetcher) : Layout := f.tree.layout

/-- Judge an answer to the request for chunk `i`. -/
def judge (f : Fetcher) (i : Nat) (r : ByteRange) : Except FetchError Bytes → Judgement
  | .error e => .failed e
  | .ok b =>
    if b.length ≠ r.size then .failed (.shortRead r.size b.length)
    else if f.tree.verifyLeaf i b then .good b
    else .corrupt

/-- Write the bytes of a chunk to the local file. -/
def deliver (f : Fetcher) (i : Nat) (r : ByteRange) (b : Bytes) (s : Site σ) :
    Except Error Nat × Site σ :=
  match f.localFile.writeDurable r.start b s.disk with
  | (.error e, d) => (.error (e.forChunk i), { s with disk := d })
  | (.ok (), d) => (.ok r.size, { s with disk := d })

/-- Attempt number `attempt` and those that may follow it, at most `left` more.
The ticket stays with the caller. -/
def attempts (f : Fetcher) (t : Ticket) (r : ByteRange) :
    Nat → Nat → Site σ → Except Error Nat × Site σ
  | left, attempt, s =>
    let (answer, source) := RangeSource.fetch s.source s.disk r f.config.fetchTimeout
    let s := { s with source }
    match f.judge t.index r answer with
    | .good b => f.deliver t.index r b s
    | j =>
      let s := { s with ledger := t.recordInvalid s.ledger }
      match left with
      | 0 => (.error (j.toError t.index attempt), s)
      | left + 1 =>
        if j.isRetryable then attempts f t r left (attempt + 1) s
        else (.error (j.toError t.index attempt), s)

/-- Fetch, check and write the chunk of a ticket. -/
def fetchVerified (f : Fetcher) (t : Ticket) (s : Site σ) : Except Error Nat × Site σ :=
  match f.layout.chunkRange? t.index with
  | none => (.error (.invalidConfiguration s!"chunk {t.index} outside layout"), s)
  | some r => f.attempts t r f.config.maxRetries.toNat 1 s

/-- Fetch the chunk of a ticket and use the ticket up. -/
def fulfil (f : Fetcher) (t : Ticket) (s : Site σ) : Except Error ChunkOutcome × Site σ :=
  match f.fetchVerified t s with
  | (.ok bytes, s) =>
    let (r, g) := t.verified s.ledger
    (r.map fun _ => .fetched bytes, { s with ledger := g })
  | (.error e, s) =>
    let (r, g) := t.failed e s.ledger
    (r.bind fun _ => .error e, { s with ledger := g })

/-- Do what a claim on chunk `i` asks for. -/
def pursue (f : Fetcher) (i : Nat) (c : Claim) (s : Site σ) :
    Except Error ChunkOutcome × Site σ :=
  match c with
  | .verified => (.ok .alreadyVerified, s)
  | .owner t => f.fulfil t s
  | .inFlight flight =>
    let (r, s) := s.await i flight
    (r.map fun _ => .joined, s)

/-- Make sure that chunk `i` is verified on disk. -/
def ensure (f : Fetcher) (i : Nat) (s : Site σ) : Except Error ChunkOutcome × Site σ :=
  match s.ledger.claim i with
  | (.error e, _) => (.error e, s)
  | (.ok c, g) => f.pursue i c { s with ledger := g }

omit [RangeSource σ] in
/-- Hash the local bytes of a verified chunk again, and take the verdict back if
they are not the chunk's. True if there is nothing to object. -/
def recheck (f : Fetcher) (i : Nat) (s : Site σ) : Except Error Bool × Site σ :=
  if s.ledger.state i ≠ .verified then (.ok true, s)
  else
    match f.layout.chunkRange? i with
    | none => (.ok true, s)
    | some r =>
      match f.localFile.readRange r s.disk with
      | (.error e, d) => (.error (e.forChunk i), { s with disk := d })
      | (.ok b, d) =>
        let s := { s with disk := d }
        if f.tree.verifyLeaf i b then (.ok true, s)
        else (.ok false, { s with ledger := (s.ledger.demote i).2 })

/-- The number of chunks after which the ledger is saved. -/
def persistEvery (f : Fetcher) : Nat := max f.config.persistEvery.toNat 1

omit [RangeSource σ] in
/-- Count one fetched chunk, and save the ledger if it is time. The count starts
again before the ledger is saved. -/
def noteFetched (f : Fetcher) (s : Site σ) : Except Error Unit × Fetcher × Site σ :=
  if f.persistEvery ≤ f.sincePersist + 1 then
    let (r, s) := s.persist
    (r, { f with sincePersist := 0 }, s)
  else (.ok (), { f with sincePersist := f.sincePersist + 1 }, s)

omit [RangeSource σ] in
/-- Save the ledger now. The count starts again before the ledger is saved. -/
def flush (f : Fetcher) (s : Site σ) : Except Error Unit × Fetcher × Site σ :=
  let (r, s) := s.persist
  (r, { f with sincePersist := 0 }, s)

omit [RangeSource σ] in
/-- Give the fetcher up: the ledger is saved if chunks have been counted since
it last was. -/
def close (f : Fetcher) (s : Site σ) : Site σ :=
  if 0 < f.sincePersist then s.persist.2 else s

end Fetcher
end VerifiedCopy
