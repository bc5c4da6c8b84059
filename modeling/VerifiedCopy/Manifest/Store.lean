/-
# Manifests on disk

A manifest is written in place: its file is emptied, or made, and then filled, so a
writing that breaks off leaves a part of the file. A file that cannot be opened is
refused as such; whatever goes wrong after that, also while its bytes are read, counts
as a file that is no manifest.

Key definitions: `Manifest.write`, `Manifest.read`.
-/
import VerifiedCopy.Disk
import VerifiedCopy.Manifest

namespace VerifiedCopy
namespace Manifest

/-- Write the file of a manifest. -/
def write (m : Manifest) (p : Path) (d : Disk) : Except Error Unit × Disk :=
  match d.openEmpty p with
  | (.error e, d) => (.error (e.within s!"create {p}"), d)
  | (.ok h, d) =>
    let (r, d) := d.writeAt h 0 m.render
    (r.mapError (IoError.within s!"write {p}"), d)

/-- Read the file of a manifest. -/
def read (p : Path) (d : Disk) : Except Error Manifest × Disk :=
  match d.openRead p with
  | (.error e, d) => (.error (e.within s!"open {p}"), d)
  | (.ok h, d) =>
    match d.readAll h with
    | (.error _, d) => (.error (.format s!"{p}: <json error>"), d)
    | (.ok b, d) => (parse p b, d)

end Manifest
end VerifiedCopy
