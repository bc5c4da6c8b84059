/-
# Saving a file all or nothing

A sidecar is replaced in four steps: its new content is written to a file of its
own, brought to stable storage, and only then given the sidecar's name. So
whoever opens the sidecar finds the old or the new content, wherever the steps
break off. The steps are data (`SaveStep`), so that a statement can speak of
every prefix of them.

Key definitions: `SaveStep`, `SaveStep.run`, `Disk.saveSteps`, `Disk.save`.
-/
import VerifiedCopy.Disk

namespace VerifiedCopy

/-- The file that new content for `p` is written to first. -/
def temporaryFor (p : Path) : Path := p ++ ".tmp"

/-- The steps of saving a file. -/
inductive SaveStep where
  | create
  | write
  | sync
  | rename
deriving DecidableEq

/-- The disk while a file is being saved, and the handle on its new content. -/
structure Saving where
  disk : Disk
  handle : Option Handle := none

namespace SaveStep

/-- The steps in order. -/
def all : List SaveStep := [create, write, sync, rename]

/-- One step of saving `b` under `p`. -/
def run (p : Path) (b : Bytes) : SaveStep → Saving → Except Error Unit × Saving
  | create, s =>
    match s.disk.openEmpty (temporaryFor p) with
    | (.error e, d) => (.error (e.within s!"create {temporaryFor p}"), { s with disk := d })
    | (.ok h, d) => (.ok (), ⟨d, some h⟩)
  | write, s =>
    match s.handle with
    | none => (.ok (), s)
    | some h =>
      let (r, d) := s.disk.writeAt h 0 b
      (r.mapError (IoError.within s!"write {temporaryFor p}"), { s with disk := d })
  | sync, s =>
    match s.handle with
    | none => (.ok (), s)
    | some h =>
      let (r, d) := s.disk.sync h
      (r.mapError (IoError.within s!"sync {temporaryFor p}"), { s with disk := d })
  | rename, s =>
    let (r, d) := s.disk.rename (temporaryFor p) p
    (r.mapError (IoError.within s!"rename {temporaryFor p} -> {p}"), { s with disk := d })

end SaveStep

namespace Disk

/-- Some steps of saving, up to the first that fails. -/
def saveSteps (p : Path) (b : Bytes) : List SaveStep → Saving → Except Error Unit × Saving
  | [], s => (.ok (), s)
  | step :: rest, s =>
    match step.run p b s with
    | (.error e, s) => (.error e, s)
    | (.ok (), s) => saveSteps p b rest s

/-- Save `b` under `p`, all or nothing. -/
def save (d : Disk) (p : Path) (b : Bytes) : Except Error Unit × Disk :=
  let (r, s) := saveSteps p b SaveStep.all ⟨d, none⟩
  (r, s.disk)

/-- Open and read a whole file. -/
def load (d : Disk) (p : Path) : Except IoError Bytes × Disk :=
  match d.openRead p with
  | (.error e, d) => (.error e, d)
  | (.ok h, d) => d.readAll h

/-- Write into a file that is there already. -/
def patch (d : Disk) (p : Path) (offset : Nat) (b : Bytes) : Except IoError Unit × Disk :=
  if d.has p then
    match d.openWrite p with
    | (.error e, d) => (.error e, d)
    | (.ok h, d) => d.writeAt h offset b
  else (.error (d.absence p), d)

/-- Write a whole file in place. -/
def overwrite (d : Disk) (p : Path) (b : Bytes) : Except IoError Unit × Disk :=
  match d.openEmpty p with
  | (.error e, d) => (.error e, d)
  | (.ok h, d) => d.writeAt h 0 b

end Disk
end VerifiedCopy
