/-
# Scripted sources

A source whose failures are written down beforehand, to rehearse a transfer. It
serves some bytes or a file, and a script says what goes wrong with requests
that start at a given position: once per entry, in order, or always. A script
can refuse a request, or tamper with the bytes that would have been the answer.

Key definitions: `Mishap`, `ScriptedSource`, `ScriptedSource.answer`.
-/
import VerifiedCopy.Source

namespace VerifiedCopy

/-- What goes wrong with one request. -/
inductive Mishap where
  /-- All bits of the first byte are flipped. -/
  | corrupt
  /-- The last `n` bytes are missing. -/
  | short (n : Nat)
  /-- There are `n` zeros too many at the end. -/
  | long (n : Nat)
  | refuse (e : FetchError)
deriving DecidableEq

/-- What becomes of an answer. -/
def Mishap.apply (answer : Except FetchError Bytes) : Mishap → Except FetchError Bytes
  | .corrupt => answer.map (·.modify 0 (· ^^^ 255))
  | .short n => answer.map fun b => b.take (b.length - n)
  | .long n => answer.map (· ++ List.replicate n 0)
  | .refuse e => .error e

/-- A source with a script. -/
structure ScriptedSource where
  /-- What is served if there is no file. -/
  bytes : Bytes := []
  file : Option FileSource := none
  /-- Mishaps that happen once, each with the start of the request. -/
  once : List (Nat × Mishap) := []
  /-- Mishaps that always happen. -/
  always : List (Nat × Mishap) := []

namespace ScriptedSource

/-- The answer without mishaps. -/
def plain (s : ScriptedSource) (d : Disk) (r : ByteRange) : Except FetchError Bytes :=
  match s.file with
  | some f => f.answer d r
  | none => .ok (s.bytes.slice r.start r.size)

/-- The answer to a request. A mishap that always happens comes before those
that happen once. -/
def answer (s : ScriptedSource) (d : Disk) (r : ByteRange) :
    Except FetchError Bytes × ScriptedSource :=
  match s.always.lookup r.start, s.once.lookup r.start with
  | some m, _ => (m.apply (s.plain d r), s)
  | none, some m =>
    (m.apply (s.plain d r), { s with once := s.once.eraseP fun e => e.1 == r.start })
  | none, none => (s.plain d r, s)

end ScriptedSource

instance : RangeSource ScriptedSource where
  fetch s d r _ := s.answer d r

end VerifiedCopy
