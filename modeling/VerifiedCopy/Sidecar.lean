/-
# The frame of a sidecar

What is known of a file is kept in files beside it, its sidecars. They share a
frame: a body, closed by the CRC-32 of it, that starts with a magic of eight
letters, a zero byte and a version. This module writes the frame and takes a
sidecar apart piece by piece from the front; every refusal is a format error.

Key definitions: `withChecksum`, `checkedBody`, `takeHeader`, `takeNat`,
`takeDigests`, `treePath`, `statePath`.
-/
import VerifiedCopy.Checksum
import VerifiedCopy.Digest
import VerifiedCopy.Error

namespace VerifiedCopy
namespace Sidecar

/-- A body with its checksum. -/
def withChecksum (body : Bytes) : Bytes :=
  body ++ Checksum.trailer body

/-- The body before a checksum that is right, if it has at least `minimum`
bytes; `what` names the kind of file. -/
def checkedBody (what : String) (minimum : Nat) (b : Bytes) : Except Error Bytes :=
  if b.length < minimum + 4 then .error (.format s!"{what} sidecar too short")
  else
    let body := b.take (b.length - 4)
    if Checksum.trailer body = b.drop (b.length - 4) then .ok body
    else .error (.format s!"{what} sidecar CRC mismatch")

/-- The next `n` bytes and the rest. -/
def take (n : Nat) (b : Bytes) : Except Error (Bytes × Bytes) :=
  if b.length < n then .error (.format "truncated sidecar") else .ok (b.take n, b.drop n)

/-- The next number of `width` bytes and the rest. -/
def takeNat (width : Nat) (b : Bytes) : Except Error (Nat × Bytes) :=
  (take width b).map fun p => (Bytes.toNatLE p.1, p.2)

/-- The next `n` digests and the rest. -/
def takeDigests : Nat → Bytes → Except Error (List Digest × Bytes)
  | 0, b => .ok ([], b)
  | n + 1, b =>
    match Digest.ofBytes? (b.take 32) with
    | none => .error (.format "truncated sidecar")
    | some d => (takeDigests n (b.drop 32)).map fun p => (d :: p.1, p.2)

/-- A `what` file starts with its magic, a zero byte and version 1; the rest
follows. -/
def takeHeader (what magic : String) (b : Bytes) : Except Error Bytes := do
  let (start, b) ← take 9 b
  if start ≠ Bytes.ofText magic ++ [0] then throw (.format s!"bad {what} magic")
  let (version, b) ← takeNat 4 b
  if version ≠ 1 then throw (.format s!"unsupported {what} version {version}")
  return b

/-- The file beside `dataPath` that holds the tree. -/
def treePath (dataPath : String) : String := dataPath ++ ".mref"

/-- The file beside `dataPath` that holds the state of the chunks. -/
def statePath (dataPath : String) : String := dataPath ++ ".mrkl"

end Sidecar
end VerifiedCopy
