import VerifiedCopy.Cache
import VerifiedCopy.Http
import VerifiedCopy.Manifest.Store
import VerifiedCopy.Reader.Cursor
import VerifiedCopy.Source.Scripted
import VerifiedCopy.Tree.Audit
import VerifiedCopy.Proofs.ReaderSoundness
import VerifiedCopy.Proofs.Tree.Codec
import VerifiedCopy.Proofs.Checksum
import VerifiedCopy.Proofs.Damage
import VerifiedCopy.Proofs.Desk
import VerifiedCopy.Proofs.Desk.Tickets
import VerifiedCopy.Proofs.Desk.Flights
import VerifiedCopy.Proofs.Desk.Restored
import VerifiedCopy.Proofs.Transfers
import VerifiedCopy.Proofs.Cache.Sessions
import VerifiedCopy.Proofs.Admission
import VerifiedCopy.Proofs.Exactness
import VerifiedCopy.Proofs.Cadence
import VerifiedCopy.Proofs.Layout.Tiling
import VerifiedCopy.Proofs.Tree.Audit
import VerifiedCopy.Proofs.Tree.Comparison
import VerifiedCopy.Proofs.Accounting
import VerifiedCopy.Proofs.Layout.Overlap
import VerifiedCopy.Proofs.Retrying
import VerifiedCopy.Proofs.Saving.Attempts
import VerifiedCopy.Proofs.Desk.Locality
import VerifiedCopy.Proofs.ReadingAhead
import VerifiedCopy.Proofs.Transparency
import VerifiedCopy.Proofs.Cursors
import VerifiedCopy.Proofs.Manifest
import VerifiedCopy.Proofs.Sources
import VerifiedCopy.Proofs.Cache.Usage
import VerifiedCopy.Proofs.Saving.Replacement
import VerifiedCopy.Proofs.Extent
import VerifiedCopy.Proofs.Ledger.Totals
import VerifiedCopy.Proofs.Layout.DefaultSize
import VerifiedCopy.Proofs.Manifest.Stored
import VerifiedCopy.Proofs.Backoff
