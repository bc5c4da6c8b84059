/-
# Dataset entries

An entry describes one remote file: where it is, how large it is, and what its
publisher has said about its content, an explicit root or a manifest. The
explicit root counts before the one that the manifest declares. A tree agrees
with an entry if the total size and the published root are the entry's
(`Entry.check`).

Key definitions: `Entry`, `Entry.publishedRoot`, `Entry.check`.
-/
import VerifiedCopy.Manifest

namespace VerifiedCopy

/-- The description of one remote file. -/
structure Entry where
  remoteUrl : String
  totalSize : Nat
  explicitRoot : Option Digest := none
  manifest : Option Manifest := none
deriving DecidableEq

namespace Entry

/-- The root that the publisher vouches for. -/
def publishedRoot (e : Entry) : Option Digest :=
  match e.explicitRoot with
  | some r => some r
  | none => e.manifest.bind fun m => (Digest.ofHex m.rootHex).toOption

/-- The tree that the manifest describes, if there is a manifest. -/
def manifestTree (e : Entry) : Option (Except Error Tree) :=
  e.manifest.map Manifest.toTree

/-- A published root has to be the root of the tree. -/
def checkRoot (e : Entry) (t : Tree) : Except Error Unit :=
  match e.publishedRoot with
  | none => .ok ()
  | some r => if r = t.root then .ok () else .error (.treeMismatch r.hex t.root.hex)

/-- A tree has to agree with the entry. -/
def check (e : Entry) (t : Tree) : Except Error Unit :=
  if e.totalSize = t.layout.totalSize then e.checkRoot t
  else .error (.treeMismatch s!"total_size={e.totalSize}" t.layout.describe)

/-- The entry in words, for messages. -/
def describe (e : Entry) : String :=
  let root := match e.explicitRoot with
    | none => "None"
    | some r => "Some(\"" ++ r.hex ++ "\")"
  "DatasetEntry \x7b remote_url: " ++ Text.quote e.remoteUrl
    ++ ", total_size: " ++ toString e.totalSize ++ ", published_root: " ++ root
    ++ ", manifest: " ++ toString e.manifest.isSome ++ ", .. \x7d"

end Entry
end VerifiedCopy
