/-
# The site of a transfer

What everybody who works on one local copy shares: the ledger, the disk and the
source. Work is a function from a site to a result and the site afterwards.

Chunks in flight may be in the hands of somebody else. What those holders will
do is part of the site (`others`): in the order in which they come to it, the
chunk and the outcome that they settle it with. Who needs a chunk in flight
waits, and waiting lets its holder finish (`Site.await`). A holder that never
comes to it has gone away, which settles the chunk as abandoned, so waiting
always ends.

Key definitions: `Site`, `Site.persist`, `Site.settleOther`, `Site.await`.
-/
import VerifiedCopy.Ledger.Store
import VerifiedCopy.Source

namespace VerifiedCopy

/-- What is shared by all work on one local copy. -/
structure Site (σ : Type) where
  ledger : Ledger
  disk : Disk
  source : σ
  others : List (Nat × Outcome) := []

namespace Site

variable {σ : Type}

/-- Save the ledger. -/
def persist (s : Site σ) : Except Error Unit × Site σ :=
  let (r, d) := s.ledger.persist s.disk
  (r, { s with disk := d })

/-- What the holder of chunk `i` will settle it with. -/
def verdictOf (s : Site σ) (i : Nat) : Outcome :=
  (s.others.lookup i).getD (.error (Ticket.abandonment i))

/-- The site after the holder of chunk `i` has settled it. -/
def settleOther (s : Site σ) (i : Nat) : Site σ :=
  { s with
    ledger := (s.ledger.settle i (s.verdictOf i)).2
    others := s.others.eraseP fun o => o.1 == i }

/-- Wait for the flight of chunk `i`, and learn what became of it. -/
def await (s : Site σ) (i : Nat) (flight : FlightId) : Outcome × Site σ :=
  match s.ledger.outcome? flight with
  | some outcome => (outcome, s)
  | none =>
    let s := s.settleOther i
    ((s.ledger.outcome? flight).getD (.error (Ticket.abandonment i)), s)

end Site
end VerifiedCopy
