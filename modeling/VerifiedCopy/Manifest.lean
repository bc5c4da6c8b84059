/-
# Manifests

A manifest is the published form of a tree: the sizes, the root and the leaves
in hexadecimal, as a JSON file. It is enough to build the tree again, and
`toTree` insists that the root comes out as written. Among several faults the
first counts, in the order: sizes, leaf text, number of leaves, root.

A file is written in the indented form of JSON (`render`) and read in any form
(`parse`); all five fields have to be there.

Key definitions: `Manifest`, `Manifest.ofTree`, `Manifest.toTree`, `render`,
`parse`.
-/
import VerifiedCopy.Config
import VerifiedCopy.Text.Quoted
import VerifiedCopy.Tree

namespace VerifiedCopy

/-- The published form of a tree. -/
structure Manifest where
  createdUtc : String
  totalSize : UInt64
  chunkSize : UInt32
  rootHex : String
  leavesHex : List String
deriving DecidableEq

namespace HexError

/-- The text of a refusal. -/
def message : HexError → String
  | length found => s!"expected 64 hex bytes, received {found}"
  | digit byte =>
    if byte < 0x80 then s!"invalid hex character: {Text.quoteChar (Char.ofNat byte.toNat)}"
    else s!"invalid hex character: 0x{String.ofList (Hex.encode [byte])}"

end HexError

namespace Manifest

/-- The manifest of a tree, made at the given time. -/
def ofTree (createdUtc : String) (t : Tree) : Manifest where
  createdUtc := createdUtc
  totalSize := UInt64.ofNat t.layout.totalSize
  chunkSize := UInt32.ofNat t.layout.chunkSize
  rootHex := t.root.hex
  leavesHex := t.leaves.map Digest.hex

/-- The digests of the leaves, numbered from `i`. -/
def readLeaves : Nat → List String → Except Error (List Digest)
  | _, [] => .ok []
  | i, s :: rest =>
    match Digest.ofHex s with
    | .error e => .error (.format s!"manifest leaf {i}: {e.message}")
    | .ok d => (readLeaves (i + 1) rest).map (d :: ·)

/-- The tree of a manifest, if its root is the one written down. -/
def toTree (m : Manifest) : Except Error Tree := do
  let layout ← Layout.ofSizes m.totalSize.toNat m.chunkSize
  let leaves ← readLeaves 0 m.leavesHex
  let t ← Tree.build layout leaves
  if t.root.hex = m.rootHex then return t
  else throw (.treeMismatch m.rootHex t.root.hex)

/-- The leaves as items of a list, one on a line. -/
def renderLeaves : List String → Bytes
  | [] => Bytes.ofText "[]"
  | s :: rest =>
    Bytes.ofText "[\n    " ++ Json.Text.quote s
      ++ rest.flatMap (fun s => Bytes.ofText ",\n    " ++ Json.Text.quote s)
      ++ Bytes.ofText "\n  ]"

/-- The file that holds a manifest. -/
def render (m : Manifest) : Bytes :=
  Bytes.ofText "\x7b\n  \"created_utc\": " ++ Json.Text.quote m.createdUtc
    ++ Bytes.ofText ",\n  \"total_size\": " ++ Bytes.ofText (toString m.totalSize.toNat)
    ++ Bytes.ofText ",\n  \"chunk_size\": " ++ Bytes.ofText (toString m.chunkSize.toNat)
    ++ Bytes.ofText ",\n  \"root_hex\": " ++ Json.Text.quote m.rootHex
    ++ Bytes.ofText ",\n  \"leaves_hex\": " ++ renderLeaves m.leavesHex
    ++ Bytes.ofText "\n\x7d"

/-- The manifest that a value holds. -/
def ofValue? (v : Json.Value) : Option Manifest := do
  match ← v.fields? ["created_utc", "total_size", "chunk_size", "root_hex", "leaves_hex"] with
  | [some created, some total, some chunk, some root, some leaves] =>
    return {
      createdUtc := ← created.toText?
      totalSize := ← Config.word64? total
      chunkSize := ← Config.word32? chunk
      rootHex := ← root.toText?
      leavesHex := ← leaves.toTexts? }
  | _ => none

/-- The manifest in the file `path` whose content is given. -/
def parse (path : String) (content : Bytes) : Except Error Manifest :=
  match (Json.Value.read content).bind ofValue? with
  | none => .error (.format s!"{path}: <json error>")
  | some m => .ok m

end Manifest
end VerifiedCopy
