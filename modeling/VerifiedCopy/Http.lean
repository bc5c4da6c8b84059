/-
# Ranges over HTTP

A remote file behind a web server is read with range requests. The server is
anything that answers requests (`WebClient`): in time, not in time, or not at
all. This module says what is asked and what is made of the answers: a partial
answer has to be the range, a full answer holds the range somewhere inside, and
every other status is a failure. The size of the file comes from a `HEAD`
request, and its tree from the sidecar that is published beside it.

Key definitions: `Http.Request`, `Http.Reply`, `Http.rangeOf`, `Http.lengthOf`,
`HttpSource`, `Entry.ofUrl`.
-/
import VerifiedCopy.Entry
import VerifiedCopy.Source
import VerifiedCopy.Tree.Sidecar

namespace VerifiedCopy
namespace Http

/-- A request to a web server. -/
structure Request where
  method : String
  url : String
  /-- The first and the last position asked for. -/
  range : Option (Nat × Nat) := none
deriving DecidableEq

/-- Why there is no answer. -/
inductive Failure where
  | timeout
  | transport (text : String)
deriving DecidableEq

/-- An answer, whose body may break off. -/
structure Response where
  status : Nat
  contentLength : Option Nat := none
  body : Except Failure Bytes

/-- What comes of a request. -/
abbrev Reply := Except Failure Response

namespace Failure

/-- The failure of a request that could take the given time. -/
def toFetchError (limit : Duration) : Failure → FetchError
  | timeout => .timeout limit
  | transport text => .transport text

end Failure

/-- Whether a status says that all went well. -/
def isSuccess (status : Nat) : Bool := 200 ≤ status && status < 300

/-- The size that an answer to a `HEAD` request tells. -/
def lengthOf (limit : Duration) : Reply → Except FetchError Nat
  | .error e => .error (e.toFetchError limit)
  | .ok r =>
    if isSuccess r.status then
      match r.contentLength with
      | some n => .ok n
      | none => .error (.transport "missing Content-Length")
    else .error (.status r.status)

/-- The bytes that follow the head of an answer. Status 204 says that there is no
content, so nothing is read after it. -/
def payload (r : Response) : Except Failure Bytes :=
  if r.status = 204 then .ok [] else r.body

/-- The whole body of an answer. -/
def bodyOf (limit : Duration) : Reply → Except FetchError Bytes
  | .error e => .error (e.toFetchError limit)
  | .ok r =>
    if isSuccess r.status then (payload r).mapError (Failure.toFetchError limit)
    else .error (.status r.status)

/-- The bytes of a range from the body of an answer that is partial, or from the
body of one that ignores the range and holds the whole file. -/
def cut (r : ByteRange) (isFull : Bool) (body : Bytes) : Except FetchError Bytes :=
  if isFull then
    if body.length < r.stop then .error (.shortRead r.size (body.length - r.start))
    else .ok (body.slice r.start r.size)
  else if body.length = r.size then .ok body
  else .error (.shortRead r.size body.length)

/-- The bytes of a range from an answer. -/
def rangeOf (limit : Duration) (r : ByteRange) : Reply → Except FetchError Bytes
  | .error e => .error (e.toFetchError limit)
  | .ok a =>
    if a.status = 206 ∨ a.status = 200 then
      match a.body with
      | .error e => .error (e.toFetchError limit)
      | .ok body => cut r (a.status == 200) body
    else .error (.status a.status)

/-- The request for a range that is not empty. -/
def rangeRequest (url : String) (r : ByteRange) : Request :=
  ⟨"GET", url, some (r.start, r.stop - 1)⟩

end Http

/-- Something that sends requests. -/
class WebClient (ω : Type) where
  /-- What comes of a request, and the client afterwards. -/
  send : ω → Http.Request → Http.Reply × ω

/-- A remote file behind a web server. -/
structure HttpSource (ω : Type) where
  client : ω
  url : String

namespace HttpSource

variable {ω : Type} [WebClient ω]

/-- The bytes of a range. An empty range is not asked for. -/
def fetch (s : HttpSource ω) (r : ByteRange) (limit : Duration) :
    Except FetchError Bytes × HttpSource ω :=
  if r.isEmpty then (.ok [], s)
  else
    let (reply, client) := WebClient.send s.client (Http.rangeRequest s.url r)
    (Http.rangeOf limit r reply, { s with client })

/-- The size of the remote file. -/
def contentLength (s : HttpSource ω) (limit : Duration) :
    Except FetchError Nat × HttpSource ω :=
  let (reply, client) := WebClient.send s.client ⟨"HEAD", s.url, none⟩
  (Http.lengthOf limit reply, { s with client })

/-- A file beside the remote file, or itself. -/
def get (s : HttpSource ω) (url : String) (limit : Duration) :
    Except FetchError Bytes × HttpSource ω :=
  let (reply, client) := WebClient.send s.client ⟨"GET", url, none⟩
  (Http.bodyOf limit reply, { s with client })

instance : RangeSource (HttpSource ω) where
  fetch s _ r limit := s.fetch r limit

end HttpSource

namespace Entry

/-- A failed request, with the words for what was asked. -/
def requestError (asked : String) (e : FetchError) : Error := .io asked e.message

/-- The entry that a size and a published tree make. -/
def ofTree (url : String) (totalSize : Nat) (createdUtc : String) (b : Bytes) :
    Except Error Entry := do
  let t ← Tree.decode b
  if t.layout.totalSize ≠ totalSize then
    throw (.treeMismatch s!"total_size={totalSize}" s!"total_size={t.layout.totalSize}")
  return { remoteUrl := url, totalSize, manifest := some (Manifest.ofTree createdUtc t) }

/-- The entry of the remote file under a URL: its size from a `HEAD` request and
its tree from the sidecar beside it. -/
def ofUrl {ω : Type} [WebClient ω] (s : HttpSource ω) (limit : Duration) (createdUtc : String) :
    Except Error Entry × HttpSource ω :=
  match s.contentLength limit with
  | (.error e, s) => (.error (requestError s!"HEAD {s.url}" e), s)
  | (.ok totalSize, s) =>
    let treeUrl := Sidecar.treePath s.url
    match s.get treeUrl limit with
    | (.error e, s) => (.error (requestError s!"GET {treeUrl}" e), s)
    | (.ok b, s) => (ofTree s.url totalSize createdUtc b, s)

end Entry
end VerifiedCopy
