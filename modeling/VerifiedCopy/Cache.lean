/-
# Caches

A cache keeps one dataset file at a local path, with the tree and the ledger in
sidecars beside it. Opening it takes up what an earlier session left behind: the
data file and the ledger have to be both there or both not there. A tree that is
not there yet is made from the entry's manifest and saved. The data file stays
locked while the cache is open, and closing the cache saves the ledger.

Key definitions: `Cache`, `Cache.openAt`, `Cache.download`, `Cache.reader`,
`Cache.close`.
-/
import VerifiedCopy.Reader
import VerifiedCopy.Tree.Store

namespace VerifiedCopy

/-- An open cache. Its ledger is the site's. -/
structure Cache where
  entry : Entry
  dataPath : Path
  tree : Tree
  localFile : LocalFile
  config : Config

namespace Cache

/-- The data file and the ledger have to be both there or both not there. -/
def checkPair (dataPath : Path) (d : Disk) : Except Error Unit :=
  if d.has dataPath = d.has (Sidecar.statePath dataPath) then .ok ()
  else .error (.invalidConfiguration
    s!"{dataPath} and {Sidecar.statePath dataPath} must both exist or both be absent")

/-- The tree that the manifest of an entry describes; `p` is where it was
missing. -/
def treeOfManifest (entry : Entry) (p : Path) : Except Error Tree :=
  match entry.manifestTree with
  | none => .error (.invalidConfiguration s!"no tree at {p} and no manifest for {entry.remoteUrl}")
  | some r => r

/-- The tree in the sidecar, or the manifest's, which is saved. -/
def loadTree (entry : Entry) (dataPath : Path) (d : Disk) : Except Error Tree × Disk :=
  let p := Sidecar.treePath dataPath
  if d.has p then Tree.load p d
  else
    match treeOfManifest entry p with
    | .error e => (.error e, d)
    | .ok t =>
      match t.save p d with
      | (.error e, d) => (.error e, d)
      | (.ok (), d) => (.ok t, d)

/-- The tree has to agree with the entry. -/
def checkTree (entry : Entry) (dataPath : Path) (t : Tree) : Except Error Unit :=
  if entry.totalSize = t.layout.totalSize then entry.checkRoot t
  else .error (.treeMismatch s!"total_size={entry.totalSize}"
    s!"total_size={t.layout.totalSize} in {Sidecar.treePath dataPath}")

/-- The data file, opened and locked, and the ledger. If the ledger cannot be
opened, the data file is closed again. -/
def openFiles (dataPath : Path) (totalSize chunkCount : Nat) (d : Disk) :
    Except Error (LocalFile × Ledger) × Disk :=
  match LocalFile.openSized dataPath totalSize d with
  | (.error e, d) => (.error e, d)
  | (.ok f, d) =>
    match f.lock d with
    | (.error e, d) => (.error e, d)
    | (.ok f, d) =>
      match Ledger.openOrCreate (Sidecar.statePath dataPath) chunkCount d with
      | (.error e, d) => (.error e, f.close d)
      | (.ok g, d) => (.ok (f, g), d)

/-- Open the cache of an entry at a path. -/
def openAt (entry : Entry) (dataPath : Path) (config : Config) (d : Disk) :
    Except Error (Cache × Ledger) × Disk :=
  match config.transfer.validate, checkPair dataPath d with
  | .error e, _ => (.error e, d)
  | _, .error e => (.error e, d)
  | .ok (), .ok () =>
    match loadTree entry dataPath d with
    | (.error e, d) => (.error e, d)
    | (.ok tree, d) =>
      match checkTree entry dataPath tree with
      | .error e => (.error e, d)
      | .ok () =>
        match openFiles dataPath entry.totalSize tree.leafCount d with
        | (.error e, d) => (.error e, d)
        | (.ok (localFile, ledger), d) =>
          (.ok (⟨entry, dataPath, tree, localFile, config⟩, ledger), d)

/-- What is needed to bring in every chunk. -/
def prepareDownload (c : Cache) (g : Ledger) : Except Error (Fetcher × Job) :=
  VerifiedCopy.prepareDownload c.config.transfer c.entry c.tree g c.localFile
    (List.range c.tree.leafCount)

/-- Bring in every chunk that is not verified. -/
def download {σ : Type} [RangeSource σ] (c : Cache) (s : Site σ) : Except Error Job × Site σ :=
  VerifiedCopy.download c.config.transfer c.entry c.tree c.localFile
    (List.range c.tree.leafCount) s

/-- A reader of the content. -/
def reader (c : Cache) (g : Ledger) : Except Error Reader :=
  Reader.create c.entry c.tree g c.localFile c.config.transfer c.config.reader

/-- Close the cache: the ledger is saved, if that is possible, and the lock is
given back. -/
def close {σ : Type} (c : Cache) (s : Site σ) : Site σ :=
  let s := s.persist.2
  { s with disk := c.localFile.close s.disk }

end Cache
end VerifiedCopy
