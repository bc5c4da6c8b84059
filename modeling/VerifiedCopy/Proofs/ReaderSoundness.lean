/-
# Reads that do not trust the sidecar

A sidecar may call chunks verified that are not, and the local file may hold
anything. A reader that checks local bytes finds this out when it first comes to
a chunk, so what it gives out is right all the same: the local bytes of chunks
that have the digests of their leaves. If the tree is that of some content, and
no two of the chunks on either side collide, these are the bytes of the content
(`read_gives_content`).

This rests on the sidecar not being saved by way of the local file: the ledger that is saved after
a chunk was fetched would overwrite the chunk that is about to be given out
(`read_gives_sidecar`).

Key theorems: `leaf?_of_content`, `getElem?_of_matches`, `slice_of_matches`,
`read_gives_content`, `read_gives_sidecar`.
-/
import VerifiedCopy.Proofs.Ledger.Snapshot
import VerifiedCopy.Proofs.Session
import VerifiedCopy.Proofs.Tree.Authenticity

namespace VerifiedCopy

open Site (Calm)

namespace Session

variable {t : Tree} {file : LocalFile}

/-! ### Chunks of some content -/

/-- The digest of a chunk is that of the slice in its place. -/
theorem leaf?_of_content {D : Bytes} {c : UInt32} {i : Nat} {cr : ByteRange}
    (ht : Tree.ofContent D c = .ok t) (hcr : t.layout.chunkRange? i = some cr) :
    D.slice (i * t.layout.chunkSize) t.layout.chunkSize ∈ Bytes.pieces t.layout.chunkSize D ∧
      t.leaf? i =
        some (Digest.ofLeaf (D.slice (i * t.layout.chunkSize) t.layout.chunkSize)) := by
  obtain ⟨htotal, -, hleaves⟩ := Tree.ofContent_eq_ok_iff.1 ht
  obtain ⟨hi, -, -⟩ := Layout.chunkRange?_eq_some_iff.1 hcr
  have hcount : i < ceilDiv D.length t.layout.chunkSize := by rw [← htotal]; exact hi
  have hpiece := Bytes.getElem?_pieces t.layout.chunkSize_pos D hcount
  refine ⟨List.mem_of_getElem? hpiece, ?_⟩
  rw [t.leaf?_eq_getElem?, hleaves, List.getElem?_map, hpiece]
  rfl

/-- Chunks that match the tree of some content are those of the content, unless
digests collide. -/
theorem getElem?_of_matches {D content : Bytes} {c : UInt32} {i k : Nat} {cr : ByteRange}
    (ht : Tree.ofContent D c = .ok t) (hcr : t.layout.chunkRange? i = some cr)
    (hk : cr.contains k = true) (hm : t.Matches content i)
    (hfree : CollisionFree (Bytes.pieces t.layout.chunkSize D ++
      t.layout.ranges.map fun q => content.slice q.start q.size)) :
    content[k]? = D[k]? := by
  obtain ⟨cr', hcr', hlen, hleaf⟩ := hm
  obtain rfl : cr = cr' := Option.some.inj (hcr.symm.trans hcr')
  obtain ⟨hi, hstart, hstop⟩ := Layout.chunkRange?_eq_some_iff.1 hcr
  obtain ⟨hmem, hleaf'⟩ := leaf?_of_content ht hcr
  have hrange : cr ∈ t.layout.ranges := by
    unfold Layout.ranges
    rw [List.mem_filterMap]
    exact ⟨i, List.mem_range.2 hi, hcr⟩
  have heq : content.slice cr.start cr.size =
      D.slice (i * t.layout.chunkSize) t.layout.chunkSize := by
    refine hfree _ (List.mem_append_right _ (List.mem_map_of_mem hrange)) _
      (List.mem_append_left _ hmem) ?_
    exact Option.some.inj (hleaf.symm.trans hleaf')
  rw [ByteRange.contains_iff] at hk
  have hget : (content.slice cr.start cr.size)[k - cr.start]? =
      (D.slice (i * t.layout.chunkSize) t.layout.chunkSize)[k - cr.start]? := by rw [heq]
  have hsize : k - cr.start < cr.size := by unfold ByteRange.size; omega
  have hchunk : k - cr.start < t.layout.chunkSize := by omega
  have hpos : cr.start + (k - cr.start) = k := by omega
  rw [Bytes.getElem?_slice, Bytes.getElem?_slice, if_pos hsize, if_pos hchunk, ← hstart,
    hpos] at hget
  exact hget

/-- A range of chunks that match the tree of some content is that of the content,
unless digests collide. -/
theorem slice_of_matches {D content : Bytes} {c : UInt32} {range : ByteRange}
    (ht : Tree.ofContent D c = .ok t) (hinside : range.stop ≤ t.layout.totalSize)
    (hm : ∀ i cr k, t.layout.chunkRange? i = some cr → cr.contains k = true →
      range.contains k = true → t.Matches content i)
    (hfree : CollisionFree (Bytes.pieces t.layout.chunkSize D ++
      t.layout.ranges.map fun q => content.slice q.start q.size)) :
    content.slice range.start range.size = D.slice range.start range.size := by
  refine Bytes.slice_congr fun k hk hk' => ?_
  have hin := ByteRange.contains_iff_size.2 ⟨hk, hk'⟩
  have hlt : k < t.layout.totalSize := by
    rw [ByteRange.contains_iff] at hin
    omega
  obtain ⟨cr, hcr, hk⟩ := Layout.exists_chunkRange? hlt
  exact getElem?_of_matches ht hcr hk (hm _ cr k hcr hk hin) hfree

/-! ### Reads -/

variable {σ : Type} [RangeSource σ]

/-- Whatever a sidecar and the local file say to begin with, as long as the local file is
not the one that the sidecar is written to before it gets its name (`hshield`): what a
reader that checks local bytes gives out is the local bytes, and every chunk in the range
has the digest of its leaf; so it is the content, unless digests collide. -/
theorem read_gives_content (t : Tree) (file : LocalFile) (s : Site σ) {b : Bytes} {g : Ledger}
    (hg : Ledger.restore b = .ok g) (p : Option String) (hs : s.ledger = { g with path := p })
    (hknown : s.disk.Knows file.handle)
    (hshield : ∀ q, p = some q → s.disk.Shields q file.handle) (calls : List Call) {k : Nat}
    {r r' : Reader} {range : ByteRange} {out : Bytes} {s' : Site σ}
    (hr : (performAll t file calls ⟨s, [], []⟩).readers[k]? = some r)
    (hre : r.config.recheckLocal = true)
    (hread : r.read range (performAll t file calls ⟨s, [], []⟩).site = (.ok out, r', s')) :
    out = (file.content s'.disk).slice range.start range.size ∧
      (∀ i cr k, t.layout.chunkRange? i = some cr → cr.contains k = true →
        range.contains k = true → t.Matches (file.content s'.disk) i) ∧
      (∀ D c, Tree.ofContent D c = .ok t →
        CollisionFree (Bytes.pieces t.layout.chunkSize D ++
          t.layout.ranges.map fun q => (file.content s'.disk).slice q.start q.size) →
        out = D.slice range.start range.size) := by
  have hidle : s.ledger.inFlight = [] := by
    have hempty := Ledger.restore_inFlight hg
    rw [hs]
    exact hempty
  have hcalm : Calm file s := by
    refine ⟨⟨hknown, fun q hq => hshield q ?_⟩, hidle⟩
    rw [hs] at hq
    exact hq
  obtain ⟨hm, hleads⟩ := performAll_spec (t := t) calls (m := ⟨s, [], []⟩) hcalm (fits_start s)
  obtain ⟨hserves, hsound⟩ := hm.readers r (List.mem_of_getElem? hr)
  have hgiven := (Reader.read_spec hserves range (performAll t file calls ⟨s, [], []⟩).site).2
  have hout := hgiven hre (hleads hcalm).1 (hsound hre) out (by rw [hread])
  rw [hread] at hout
  have hmatch : ∀ i cr k, t.layout.chunkRange? i = some cr → cr.contains k = true →
      range.contains k = true → t.Matches (file.content s'.disk) i := by
    intro i cr k hcr hk hin
    refine (hout.holds i ?_).2
    rw [Layout.mem_overlapping_iff]
    exact ⟨k, hin, (Layout.contains_chunkRange?_iff hcr).1 hk⟩
  refine ⟨hout.bytes, hmatch, fun D c ht hfree => ?_⟩
  rw [hout.bytes]
  exact slice_of_matches ht hout.inside hmatch hfree

/-- A sidecar that calls the one chunk verified. -/
def lyingSidecar : Bytes :=
  Ledger.snapshot { chunkCount := 1, present := .oneSet, valid := .oneSet }

/-- The ledger in the sidecar. -/
def lyingLedger : Ledger := (Ledger.restore lyingSidecar).toOption.getD (Ledger.empty 0)

theorem restore_lyingSidecar : Ledger.restore lyingSidecar = .ok lyingLedger := by
  have hok : (Ledger.restore lyingSidecar).toOption.isSome = true := by decide +kernel
  unfold lyingLedger
  cases h : Ledger.restore lyingSidecar with
  | error e => rw [h] at hok; cases hok
  | ok g => rfl

/-- A site with the lying ledger in memory and an empty copy. -/
def lyingSite : Site ScriptedSource :=
  { emptyCopy "d" with ledger := { lyingLedger with path := none } }

/-- Read ahead at once, and read the letters. -/
def readLetters : List Call :=
  [.openReader { remoteUrl := "", totalSize := 8 } {} { readaheadAfter := 0 },
    .prebuffer 0 allLetters]

theorem read_gives_content_letters :
    lyingLedger.state 0 = .verified ∧ ∃ r r' s',
      (performAll lettersTree (localCopy "d") readLetters
        ⟨lyingSite, [], []⟩).readers[0]? = some r ∧
      r.read ⟨0, 8, by decide⟩ (performAll lettersTree (localCopy "d") readLetters
        ⟨lyingSite, [], []⟩).site = (.ok letters, r', s') ∧
      lettersTree.Matches ((localCopy "d").content s'.disk) 0 := by
  refine ⟨by decide +kernel, ?_⟩
  have hreads : ((performAll lettersTree (localCopy "d") readLetters
      ⟨lyingSite, [], []⟩).readers[0]?.map fun r => (r.config.recheckLocal,
        (r.read ⟨0, 8, by decide⟩ (performAll lettersTree (localCopy "d") readLetters
          ⟨lyingSite, [], []⟩).site).1.toOption)) = some (true, some letters) := by decide +kernel
  obtain ⟨r, hr, hread⟩ := Option.map_eq_some_iff.1 hreads
  rw [Prod.mk.injEq] at hread
  rcases hres : r.read ⟨0, 8, by decide⟩ (performAll lettersTree (localCopy "d") readLetters
    ⟨lyingSite, [], []⟩).site with ⟨e | out, r', s'⟩
  · rw [hres] at hread
    cases hread.2
  · rw [hres] at hread
    obtain rfl : out = letters := Option.some.inj hread.2
    refine ⟨r, r', s', hr, hres, ?_⟩
    exact (read_gives_content lettersTree (localCopy "d") lyingSite restore_lyingSidecar none rfl
      (emptyCopy_knows "d") (nomatch ·, ·) readLetters hr hread.1 hres).2.1 0 ⟨0, 8, by decide⟩ 0
      rfl rfl rfl

/-- A site where the lying ledger is kept in `s`, with an empty copy in `s.tmp`. -/
def lyingAliased : Site ScriptedSource :=
  { emptyCopy "s.tmp" with ledger := { lyingLedger with path := some "s" } }

/-- A reader that saves the ledger after each chunk. -/
def saveOften : List Call :=
  [.openReader { remoteUrl := "", totalSize := 8 } { persistEvery := 1 } { readaheadChunks := 0 }]

/-- Without the proviso a reader that checks local bytes may give out the head of the sidecar. The
chunk was fetched and was right, and then the ledger was saved over it. -/
theorem read_gives_sidecar :
    ¬ ∀ (t : Tree) (file : LocalFile) (s : Site ScriptedSource) (b : Bytes) (g : Ledger)
      (p : Option String) (calls : List Call) (k : Nat) (r r' : Reader) (range : ByteRange)
      (out : Bytes) (s' : Site ScriptedSource),
      Ledger.restore b = .ok g → s.ledger = { g with path := p } → s.disk.Knows file.handle →
      (performAll t file calls ⟨s, [], []⟩).readers[k]? = some r → r.config.recheckLocal = true →
      r.read range (performAll t file calls ⟨s, [], []⟩).site = (.ok out, r', s') →
        ∀ i cr k, t.layout.chunkRange? i = some cr → cr.contains k = true →
          range.contains k = true → t.Matches (file.content s'.disk) i := by
  intro h
  have hreads : ((performAll lettersTree (localCopy "s.tmp") saveOften
      ⟨lyingAliased, [], []⟩).readers[0]?.map fun r => (r.config.recheckLocal,
        (r.read allLetters (performAll lettersTree (localCopy "s.tmp") saveOften
          ⟨lyingAliased, [], []⟩).site).1.toOption,
        lettersTree.verifyLeaf 0 (((localCopy "s.tmp").content (r.read allLetters
          (performAll lettersTree (localCopy "s.tmp") saveOften
            ⟨lyingAliased, [], []⟩).site).2.2.disk).slice 0 8))) =
      some (true, some (Bytes.ofText Ledger.magic), false) := by decide +kernel
  obtain ⟨r, hr, hread⟩ := Option.map_eq_some_iff.1 hreads
  rw [Prod.mk.injEq, Prod.mk.injEq] at hread
  obtain ⟨hre, hout, hbad⟩ := hread
  obtain ⟨cr, hcr, -, hleaf⟩ := h lettersTree (localCopy "s.tmp") lyingAliased lyingSidecar
    lyingLedger (some "s") saveOften 0 r _ allLetters _ _ restore_lyingSidecar rfl
    (emptyCopy_knows "s.tmp") hr hre (Prod.ext (eq_ok_of_toOption hout) rfl) 0 ⟨0, 8, by decide⟩ 0
    rfl rfl rfl
  obtain rfl : (⟨0, 8, by decide⟩ : ByteRange) = cr := Option.some.inj hcr
  cases (Site.verifyLeaf_iff.2 hleaf).symm.trans hbad

end Session
end VerifiedCopy
