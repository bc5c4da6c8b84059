/-
# The ledger of chunks

For every chunk the ledger holds two bits: `present` says that a verdict exists,
`valid` that it was good. Who is fetching a chunk is known only in memory: a
chunk that is being fetched has an entry in `inFlight`, which names the flight
that others can wait on. A flight is published exactly when its entry is
removed, and what was published stays (`flights`).

The right to fetch a chunk is a ticket, given out by `claim` to one holder at a
time; the ticket is used up by settling the chunk as verified or failed, and a
ticket that is dropped settles it as abandoned.

Key definitions: `Ledger`, `Ledger.state`, `claim`, `markFetching`, `settle`,
`demote`, `Ticket`, `missing`, `verifiedBytes`.
-/
import VerifiedCopy.Bits
import VerifiedCopy.Layout

namespace VerifiedCopy

/-- The name of a flight. -/
abbrev FlightId := Nat

/-- The right to fetch one chunk. -/
structure Ticket where
  index : Nat
deriving DecidableEq

/-- What a caller who wants a chunk is told. -/
inductive Claim where
  /-- The chunk is verified; there is nothing to do. -/
  | verified
  /-- The caller owns the fetch and has to settle the ticket. -/
  | owner (ticket : Ticket)
  /-- Somebody else is fetching. -/
  | inFlight (flight : FlightId)
deriving DecidableEq

/-- The verdicts on all chunks, and who is fetching what. -/
structure Ledger where
  chunkCount : Nat
  present : Bits chunkCount
  valid : Bits chunkCount
  /-- The chunks being fetched, each with its flight. -/
  inFlight : List (Nat × FlightId) := []
  /-- What became of each flight so far. -/
  flights : List (Option Outcome) := []
  /-- The sidecar that the ledger is kept in. -/
  path : Option String := none

namespace Ledger

/-- A ledger without verdicts. -/
def empty (chunkCount : Nat) : Ledger :=
  { chunkCount, present := Bits.zeros chunkCount, valid := Bits.zeros chunkCount }

/-- The flight of a chunk that is being fetched. -/
def flight? (g : Ledger) (i : Nat) : Option FlightId :=
  g.inFlight.lookup i

/-- What the ledger knows of chunk `i`, flights first. -/
def stateWithin (g : Ledger) (i : Nat) : ChunkState :=
  match g.flight? i with
  | some _ => .fetching
  | none =>
    if g.present.get i then (if g.valid.get i then .verified else .invalid) else .absent

/-- The state of chunk `i`; a chunk that does not exist is absent. -/
def state (g : Ledger) (i : Nat) : ChunkState :=
  if i < g.chunkCount then g.stateWithin i else .absent

/-- The refusal of a chunk that does not exist. -/
def outside (g : Ledger) (i : Nat) : Error :=
  .invalidConfiguration s!"chunk {i} outside 0..{g.chunkCount}"

/-- The ledger after a new flight for chunk `i` has taken off. -/
def depart (g : Ledger) (i : Nat) : Ledger :=
  { g with inFlight := (i, g.flights.length) :: g.inFlight, flights := g.flights ++ [none] }

/-- Ask for the right to fetch chunk `i`. -/
def claim (g : Ledger) (i : Nat) : Except Error Claim × Ledger :=
  if i < g.chunkCount then
    match g.flight? i with
    | some flight => (.ok (.inFlight flight), g)
    | none =>
      if g.state i = .verified then (.ok .verified, g)
      else (.ok (.owner ⟨i⟩), g.depart i)
  else (.error (g.outside i), g)

/-- Start fetching chunk `i` without a ticket. -/
def markFetching (g : Ledger) (i : Nat) : Except Error Unit × Ledger :=
  if i < g.chunkCount then
    match g.state i with
    | .absent | .invalid => (.ok (), g.depart i)
    | source => (.error (.illegalTransition i source .fetching), g)
  else (.error (g.outside i), g)

/-- The state that an outcome leads to. -/
def stateAfter : Outcome → ChunkState
  | .ok _ => .verified
  | .error _ => .invalid

/-- End the fetch of chunk `i`: its flight is removed and published, and the
verdict is written down. -/
def settle (g : Ledger) (i : Nat) (outcome : Outcome) : Except Error Unit × Ledger :=
  if i < g.chunkCount then
    match g.flight? i with
    | none => (.error (.illegalTransition i (g.state i) (stateAfter outcome)), g)
    | some flight =>
      (.ok (), { g with
        inFlight := g.inFlight.filter (fun e => e.1 != i)
        flights := g.flights.set flight (some outcome)
        present := g.present.set i true
        valid := g.valid.set i outcome.isOk })
  else (.error (g.outside i), g)

/-- End the fetch of chunk `i` as good. -/
def markVerified (g : Ledger) (i : Nat) : Except Error Unit × Ledger :=
  g.settle i (.ok ())

/-- End the fetch of chunk `i` as corrupt. -/
def markInvalid (g : Ledger) (i : Nat) : Except Error Unit × Ledger :=
  g.settle i (.error (.chunkCorrupt i 1))

/-- Take back the good verdict on a chunk whose bytes no longer deserve it.
False if there was none. -/
def demote (g : Ledger) (i : Nat) : Bool × Ledger :=
  if g.state i = .verified then (true, { g with valid := g.valid.set i false })
  else (false, g)

/-- What has been published of a flight. -/
def outcome? (g : Ledger) (flight : FlightId) : Option Outcome :=
  g.flights[flight]?.join

/-- The number of verified chunks. -/
def verifiedCount (g : Ledger) : Nat :=
  (List.range g.chunkCount).countP fun i => g.state i = .verified

/-- The number of bytes in verified chunks. -/
def verifiedBytes (g : Ledger) (l : Layout) : Nat :=
  l.bytesIn ((List.range g.chunkCount).filter fun i => g.state i = .verified)

/-- The chunks that are not verified, ascending. -/
def missing (g : Ledger) : List Nat :=
  (List.range g.chunkCount).filter fun i => g.state i ≠ .verified

/-- Whether every chunk is verified. -/
def isComplete (g : Ledger) : Bool :=
  g.verifiedCount == g.chunkCount

end Ledger

namespace Ticket

/-- Write down a failed attempt and keep the ticket. -/
def recordInvalid (t : Ticket) (g : Ledger) : Ledger :=
  { g with present := g.present.set t.index true, valid := g.valid.set t.index false }

/-- Use the ticket up: the chunk is good. -/
def verified (t : Ticket) (g : Ledger) : Except Error Unit × Ledger :=
  g.settle t.index (.ok ())

/-- Use the ticket up: the fetch failed. -/
def failed (t : Ticket) (e : Error) (g : Ledger) : Except Error Unit × Ledger :=
  g.settle t.index (.error e)

/-- What waiters are told of a ticket that nobody settled. -/
def abandonment (index : Nat) : Error :=
  .io s!"chunk {index}" "fetch abandoned"

/-- Drop the ticket. If the chunk is still being fetched, it is settled as
abandoned, so nobody waits for ever. -/
def drop (t : Ticket) (g : Ledger) : Ledger :=
  (g.settle t.index (.error (abandonment t.index))).2

end Ticket
end VerifiedCopy
