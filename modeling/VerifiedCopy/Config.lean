/-
# Settings

The settings of transfers and of readers, with their defaults, the check that
they make sense (`TransferConfig.validate`), the delay before a retry
(`backoff`), and the reader of a settings file. Fields that a file leaves out
take their defaults; a file that cannot be read is refused with the name of the
file, without a reason.

Key definitions: `TransferConfig`, `ReaderConfig`, `Config`, `backoffMs`,
`Config.parse`.
-/
import VerifiedCopy.Error
import VerifiedCopy.Json.Value

namespace VerifiedCopy

/-- How transfers are run. -/
structure TransferConfig where
  /-- The number of requests that may be under way at once. -/
  concurrency : UInt64 := 8
  /-- The number of attempts for a chunk after the first one has failed. -/
  maxRetries : UInt32 := 3
  backoffBaseMs : UInt64 := 100
  backoffMaxMs : UInt64 := 5000
  /-- The time that one request may take. -/
  fetchTimeoutMs : UInt64 := 30000
  /-- The ledger is written down after this many fetched chunks. -/
  persistEvery : UInt32 := 16
  /-- The time between two reports; 0 for no reports. -/
  reportIntervalSecs : UInt64 := 0
deriving DecidableEq

/-- How a reader behaves. -/
structure ReaderConfig where
  /-- Whether the local bytes of a chunk are checked again the first time that
  they are read. -/
  recheckLocal : Bool := true
  /-- The number of chunks fetched ahead of a sequential reader; 0 for none. -/
  readaheadChunks : UInt32 := 4
  /-- The number of reads in a row, each from where the last one ended, that
  make a reader sequential. -/
  readaheadAfter : UInt32 := 10
deriving DecidableEq

/-- The settings of a cache. -/
structure Config where
  transfer : TransferConfig := {}
  reader : ReaderConfig := {}
deriving DecidableEq

namespace TransferConfig

/-- Whether the settings make sense. -/
def validate (c : TransferConfig) : Except Error Unit :=
  if c.concurrency = 0 then .error (.invalidConfiguration "concurrency must be > 0")
  else if c.backoffMaxMs < c.backoffBaseMs then
    .error (.invalidConfiguration "backoff_max_ms must be >= backoff_base_ms")
  else .ok ()

/-- The time that one request may take. -/
def fetchTimeout (c : TransferConfig) : Duration :=
  Duration.ofMilliseconds c.fetchTimeoutMs.toNat

/-- The largest 64-bit number. -/
def maxWord : Nat := UInt64.size - 1

/-- `2 ^ (retry - 1)`, or the largest 64-bit number if that does not fit. -/
def backoffFactor (retry : UInt32) : Nat :=
  if retry.toNat - 1 < 64 then 1 <<< (retry.toNat - 1) else maxWord

/-- The delay before retry number `retry`, counted from 1, in milliseconds: the
base, doubled for each retry before this one, up to the maximum. The product
stops at the largest 64-bit number. -/
def backoffMs (c : TransferConfig) (retry : UInt32) : Nat :=
  min (min (c.backoffBaseMs.toNat * backoffFactor retry) maxWord) c.backoffMaxMs.toNat

end TransferConfig

namespace Config

open Json (Value)

/-- The value of a field, or its default if the field is left out. -/
def orDefault {α : Type} (default : α) (read : Value → Option α) :
    Option Value → Option α
  | none => some default
  | some v => read v

/-- A 64-bit number. -/
def word64? (v : Value) : Option UInt64 :=
  (v.toNat? UInt64.size).map UInt64.ofNat

/-- A 32-bit number. -/
def word32? (v : Value) : Option UInt32 :=
  (v.toNat? UInt32.size).map UInt32.ofNat

/-- The names of the transfer settings in a file. -/
def transferFields : List String :=
  ["concurrency", "max_retries", "backoff_base_ms", "backoff_max_ms",
   "fetch_timeout_ms", "persist_every", "report_interval_secs"]

/-- The transfer settings that a value holds. -/
def transfer? (v : Value) : Option TransferConfig := do
  match ← v.fields? transferFields with
  | [concurrency, retries, base, max, timeout, persist, report] =>
    let d : TransferConfig := {}
    return {
      concurrency := ← orDefault d.concurrency word64? concurrency
      maxRetries := ← orDefault d.maxRetries word32? retries
      backoffBaseMs := ← orDefault d.backoffBaseMs word64? base
      backoffMaxMs := ← orDefault d.backoffMaxMs word64? max
      fetchTimeoutMs := ← orDefault d.fetchTimeoutMs word64? timeout
      persistEvery := ← orDefault d.persistEvery word32? persist
      reportIntervalSecs := ← orDefault d.reportIntervalSecs word64? report }
  | _ => none

/-- The reader settings that a value holds. -/
def reader? (v : Value) : Option ReaderConfig := do
  match ← v.fields? ["recheck_local", "readahead_chunks", "readahead_after"] with
  | [recheck, chunks, after] =>
    let d : ReaderConfig := {}
    return {
      recheckLocal := ← orDefault d.recheckLocal Value.toBool? recheck
      readaheadChunks := ← orDefault d.readaheadChunks word32? chunks
      readaheadAfter := ← orDefault d.readaheadAfter word32? after }
  | _ => none

/-- The settings that a value holds. -/
def ofValue? (v : Value) : Option Config := do
  match ← v.fields? ["transfer", "reader"] with
  | [transfer, reader] =>
    return {
      transfer := ← orDefault {} transfer? transfer
      reader := ← orDefault {} reader? reader }
  | _ => none

/-- The settings in the file `path` whose content is given. -/
def parse (path : String) (content : Bytes) : Except Error Config := do
  match (Value.read content).bind ofValue? with
  | none => throw (.invalidConfiguration s!"{path}: <json error>")
  | some c =>
    c.transfer.validate
    return c

end Config
end VerifiedCopy
