/-
# The steps of work on a local copy

All work on a local copy comes down to a few steps on its site, whoever does the
work and in whatever order: a chunk is claimed, a source is asked, a failed
attempt is written down, bytes of the right digest are written at the place of a
chunk in flight, a chunk in flight is settled, a range is read, a verdict is
taken back, the ledger is saved (`Site.Step`). A run is a sequence of steps; it
is labelled with the chunks claimed in it, each with the state it was claimed in
(`Site.Run`).

A chunk in flight is the only one whose bytes can change (`Step.content`), and a
chunk is called verified only after its bytes were right (`Step.state`). From
these two follows what a whole run keeps: right verdicts stay right
(`Run.sound`), a chunk that is verified and right stays so (`Run.stable`), and a
byte changes only where a chunk was claimed (`Run.changed`). The local file does not
get shorter, so what is verified stays inside of it (`Run.covered`).

Key definitions: `Tree.Matches`, `Site.Step`, `Site.Run`, `Site.Ready`,
`Site.SoundOn`, `Site.Covered`.
-/
import VerifiedCopy.Fetcher
import VerifiedCopy.Proofs.Bytes
import VerifiedCopy.Proofs.Disk

namespace VerifiedCopy

/-- Chunk `i` of some content is all there and has the digest of leaf `i`. -/
def Tree.Matches (t : Tree) (content : Bytes) (i : Nat) : Prop :=
  ∃ r, t.layout.chunkRange? i = some r ∧ (content.slice r.start r.size).length = r.size ∧
    t.leaf? i = some (Digest.ofLeaf (content.slice r.start r.size))

/-- Chunk `i` lies inside some content, whatever its bytes are. -/
def Tree.Inside (t : Tree) (content : Bytes) (i : Nat) : Prop :=
  ∀ r, t.layout.chunkRange? i = some r → r.stop ≤ content.length

/-- Chunk `i` has the same bytes in both. -/
def Tree.SameChunk (t : Tree) (i : Nat) (a b : Bytes) : Prop :=
  ∀ r k, t.layout.chunkRange? i = some r → r.contains k = true → a[k]? = b[k]?

namespace Site

variable {σ : Type}

/-- The local file is on the disk, and saving the ledger does not touch it: the
ledger is in memory only, or its temporary file is another one. -/
structure Ready (f : LocalFile) (s : Site σ) : Prop where
  known : s.disk.Knows f.handle
  shielded : ∀ p, s.ledger.path = some p → s.disk.Shields p f.handle

/-- Among the chunks in `P`, those that are called verified have the right
bytes. -/
def SoundOn (t : Tree) (f : LocalFile) (P : Nat → Prop) (s : Site σ) : Prop :=
  ∀ i, P i → s.ledger.state i = .verified → t.Matches (f.content s.disk) i

/-- The chunks that are called verified lie inside the local file. -/
def Covered (t : Tree) (f : LocalFile) (s : Site σ) : Prop :=
  ∀ i, s.ledger.state i = .verified → t.Inside (f.content s.disk) i

variable {t : Tree} {f : LocalFile} {s : Site σ} {P : Nat → Prop} {i j k : Nat}

/-! ### Disjoint chunks -/

/-- A piece that does not stick out of the place of one chunk is laid over no
position of another. -/
theorem disjoint_of_ne {l : Layout} {r r' : ByteRange} {n : Nat} (hij : i ≠ j)
    (hi : l.chunkRange? i = some r) (hj : l.chunkRange? j = some r') (hn : n ≤ r.size)
    (hk : r'.contains k = true) : k < r.start ∨ r.start + n ≤ k := by
  refine Classical.byContradiction fun h => hij ?_
  refine Layout.eq_of_contains_chunkRange? hi hj ?_ hk
  rw [ByteRange.contains_iff]
  unfold ByteRange.size at hn
  omega

theorem inside_of_matches {content : Bytes} (h : t.Matches content i) : t.Inside content i := by
  obtain ⟨r, hr, hlen, -⟩ := h
  intro q hq
  obtain rfl : r = q := Option.some.inj (hr.symm.trans hq)
  have hpos := Layout.size_pos_of_chunkRange? hr
  rw [Bytes.length_slice] at hlen
  unfold ByteRange.size at hlen hpos
  omega

/-- A piece laid over one chunk leaves the bytes of another alone. -/
theorem sameChunk_overlay {content piece : Bytes} {r : ByteRange} (h : t.Inside content i)
    (hij : j ≠ i) (hr : t.layout.chunkRange? j = some r) (hn : piece.length ≤ r.size) :
    t.SameChunk i (content.overlay r.start piece) content := by
  intro q k hq hk
  have hstop := h q hq
  refine Bytes.getElem?_overlay ?_ (disjoint_of_ne hij hr hq hn hk)
  rw [ByteRange.contains_iff] at hk
  omega

/-- Whether a chunk has the right bytes depends on its bytes only. -/
theorem matches_of_sameChunk {a b : Bytes} (h : t.Matches b i) (hab : t.SameChunk i a b) :
    t.Matches a i := by
  obtain ⟨r, hr, hlen, hleaf⟩ := h
  have hslice : a.slice r.start r.size = b.slice r.start r.size := by
    refine Bytes.slice_congr fun k hk hk' => hab r k hr ?_
    rw [ByteRange.contains_iff]
    unfold ByteRange.size at hk'
    omega
  exact ⟨r, hr, by rw [hslice, hlen], by rw [hslice, hleaf]⟩

/-- Bytes pass as chunk `i` if the tree gives the chunk their digest. -/
theorem verifyLeaf_iff {b : Bytes} :
    t.verifyLeaf i b = true ↔ t.leaf? i = some (Digest.ofLeaf b) := by
  unfold Tree.verifyLeaf
  cases t.leaf? i with
  | none => exact ⟨(nomatch ·), (nomatch ·)⟩
  | some d =>
    rw [beq_iff_eq, Option.some.injEq]
    exact ⟨Eq.symm, Eq.symm⟩

/-- A chunk that is all there has the right bytes if they pass. -/
theorem matches_iff_of_slice {content b : Bytes} {r : ByteRange}
    (hr : t.layout.chunkRange? i = some r) (hb : b = content.slice r.start r.size)
    (hlen : b.length = r.size) : t.Matches content i ↔ t.verifyLeaf i b = true := by
  rw [verifyLeaf_iff]
  constructor
  · rintro ⟨r', hr', -, hleaf⟩
    obtain rfl : r = r' := Option.some.inj (hr.symm.trans hr')
    rw [hb]
    exact hleaf
  · intro hleaf
    exact ⟨r, hr, by rw [← hb, hlen], by rw [← hb, hleaf]⟩

/-- The bytes of a chunk match it after they were laid over its place. -/
theorem matches_overlay_self {content b : Bytes} {r : ByteRange}
    (hr : t.layout.chunkRange? i = some r) (hlen : b.length = r.size)
    (hb : t.verifyLeaf i b = true) : t.Matches (content.overlay r.start b) i := by
  have hslice : b = (content.overlay r.start b).slice r.start r.size := by
    rw [← hlen]
    exact (Bytes.slice_overlay content b r.start).symm
  exact (matches_iff_of_slice hr hslice hlen).2 hb

/-! ### Keeping a site ready -/

/-- A ledger with a sidecar is saved there. -/
theorem persist_of_path {p : Path} (h : s.ledger.path = some p) :
    s.persist = ((s.disk.save p s.ledger.snapshot).1,
      { s with disk := (s.disk.save p s.ledger.snapshot).2 }) := by
  unfold Site.persist Ledger.persist
  rw [h]

/-- Saving the ledger keeps the local file, and what makes the site ready. -/
theorem Ready.persist (h : Ready f s) :
    Ready f s.persist.2 ∧ f.content s.persist.2.disk = f.content s.disk := by
  unfold Site.persist Ledger.persist
  cases hp : s.ledger.path with
  | none => exact ⟨h, rfl⟩
  | some p =>
    obtain ⟨hk, hs, hc⟩ := Disk.save_of_shields h.known (h.shielded p hp) s.ledger.snapshot
    refine ⟨⟨hk, ?_⟩, hc⟩
    intro q hq
    obtain rfl : p = q := Option.some.inj (hp.symm.trans hq)
    exact hs

theorem Ready.of_ledger {g : Ledger} (h : Ready f s) (hp : g.path = s.ledger.path) :
    Ready f { s with ledger := g } where
  known := h.known
  shielded p hq := h.shielded p (hp.symm.trans hq)

theorem Ready.of_disk {d : Disk} (h : Ready f s) (hn : d.names = s.disk.names)
    (hl : d.files.length = s.disk.files.length) : Ready f { s with disk := d } where
  known := h.known.of_length (Nat.le_of_eq hl.symm)
  shielded p hq := by
    have hs := h.shielded p hq
    unfold Disk.Shields Disk.node? at hs ⊢
    rw [hn]
    exact hs

theorem sameFiles_readRange (f : LocalFile) (r : ByteRange) (d : Disk) :
    d.SameFiles (f.readRange r d).2 :=
  d.sameFiles_readAt f.handle r.start r.size

/-! ### Steps and runs -/

variable [RangeSource σ]

/-- One step of work on the local copy `f` of the content of `t`. The label is
the chunk that the step claims, with the state it is claimed in. -/
inductive Step (t : Tree) (f : LocalFile) : Site σ → List (Nat × ChunkState) → Site σ → Prop
  /-- The right to fetch chunk `i` is given out. -/
  | claim {s : Site σ} {i : Nat} {g : Ledger}
      (h : s.ledger.claim i = (.ok (.owner ⟨i⟩), g)) :
      Step t f s [(i, s.ledger.state i)] { s with ledger := g }
  /-- The source is asked for a range. Its answer may be anything. -/
  | ask (s : Site σ) (r : ByteRange) (limit : Duration) :
      Step t f s [] { s with source := (RangeSource.fetch s.source s.disk r limit).2 }
  /-- A failed attempt to fetch chunk `i` is written down. -/
  | blame {s : Site σ} {i : Nat} (h : s.ledger.state i = .fetching) :
      Step t f s [] { s with ledger := Ticket.recordInvalid ⟨i⟩ s.ledger }
  /-- Bytes with the digest of chunk `i` are written, or the write fails. -/
  | write {s : Site σ} {i : Nat} {r : ByteRange} {b : Bytes}
      (h : s.ledger.state i = .fetching) (hr : t.layout.chunkRange? i = some r)
      (hlen : b.length = r.size) (hb : t.verifyLeaf i b = true) :
      Step t f s [] { s with disk := (f.writeDurable r.start b s.disk).2 }
  /-- The fetch of chunk `i` ends; it ends well only if the bytes are right. -/
  | settle {s : Site σ} {i : Nat} (h : s.ledger.state i = .fetching) (o : Outcome)
      (ho : o = .ok () → t.Matches (f.content s.disk) i) :
      Step t f s [] { s with ledger := (s.ledger.settle i o).2 }
  /-- A range of the local file is read. -/
  | look (s : Site σ) (r : ByteRange) :
      Step t f s [] { s with disk := (f.readRange r s.disk).2 }
  /-- The good verdict on a chunk is taken back because the bytes are wrong. -/
  | demote {s : Site σ} {i : Nat} (h : s.ledger.state i = .verified)
      (hb : ¬ t.Matches (f.content s.disk) i) :
      Step t f s [] { s with ledger := (s.ledger.demote i).2 }
  /-- The ledger is saved, or saving fails. -/
  | persist (s : Site σ) : Step t f s [] s.persist.2

/-- A sequence of steps. -/
inductive Run (t : Tree) (f : LocalFile) : Site σ → List (Nat × ChunkState) → Site σ → Prop
  | nil (s : Site σ) : Run t f s [] s
  | cons {s s' s'' : Site σ} {c cs : List (Nat × ChunkState)} (h : Step t f s c s')
      (hs : Run t f s' cs s'') : Run t f s (c ++ cs) s''

variable {s' s'' : Site σ} {c cs : List (Nat × ChunkState)}

/-! ### What one step does -/

theorem Step.ready (h : Step t f s c s') (hr : Ready f s) : Ready f s' := by
  cases h with
  | claim h =>
    obtain ⟨-, -, -, -, rfl⟩ := Ledger.claim_eq_owner h
    exact hr.of_ledger rfl
  | ask r limit => exact ⟨hr.known, hr.shielded⟩
  | blame h => exact hr.of_ledger rfl
  | write h hrange hlen hb =>
    exact hr.of_disk (f.names_writeDurable _ _ _) (f.length_files_writeDurable _ _ _)
  | settle h o ho => exact hr.of_ledger (Ledger.settle_path o)
  | look r =>
    obtain ⟨hn, hf⟩ := sameFiles_readRange f r s.disk
    exact hr.of_disk hn (by rw [hf])
  | demote h hb => exact hr.of_ledger Ledger.demote_path
  | persist => exact hr.persist.1

/-- The content changes in the place of a chunk in flight only. -/
theorem Step.content (h : Step t f s c s') (hr : Ready f s) :
    f.content s'.disk = f.content s.disk ∨
    ∃ i r piece, s.ledger.state i = .fetching ∧ t.layout.chunkRange? i = some r ∧
      piece.length ≤ r.size ∧ s'.ledger = s.ledger ∧
      f.content s'.disk = (f.content s.disk).overlay r.start piece := by
  cases h with
  | claim h => exact .inl rfl
  | ask r limit => exact .inl rfl
  | blame h => exact .inl rfl
  | @write i r b h hrange hlen hb =>
    obtain ⟨n, hc⟩ := LocalFile.content_writeDurable hr.known r.start b
    refine .inr ⟨i, r, b.take n, h, hrange, ?_, rfl, hc⟩
    rw [← hlen]
    exact List.length_take_le' n b
  | settle h o ho => exact .inl rfl
  | look r => exact .inl ((sameFiles_readRange f r s.disk).content_eq f)
  | demote h hb => exact .inl rfl
  | persist => exact .inl hr.persist.2

/-- The state of a chunk changes by a claim, by a verdict on its fetch, or
because its good verdict is taken back. -/
theorem Step.state (h : Step t f s c s') (i : Nat) :
    s'.ledger.state i = s.ledger.state i ∨
    (s'.ledger.state i = .fetching ∧ s.ledger.state i ≠ .verified ∧
      (i, s.ledger.state i) ∈ c) ∨
    (s'.ledger.state i = .verified ∧ s.ledger.state i = .fetching ∧
      t.Matches (f.content s'.disk) i) ∨
    (s'.ledger.state i = .invalid ∧
      (s.ledger.state i = .verified → ¬ t.Matches (f.content s.disk) i)) := by
  cases h with
  | @claim j g h =>
    obtain ⟨-, hj, -, hne, rfl⟩ := Ledger.claim_eq_owner h
    rw [Ledger.state_depart hj]
    by_cases hij : i = j
    · rw [if_pos hij, hij]
      exact .inr (.inl ⟨rfl, hne, List.mem_singleton_self _⟩)
    · rw [if_neg hij]
      exact .inl rfl
  | ask r limit => exact .inl rfl
  | blame h => exact .inl (Ledger.state_recordInvalid h i)
  | write h hrange hlen hb => exact .inl rfl
  | @settle j h o ho =>
    rw [Ledger.state_settle h]
    by_cases hij : i = j
    · rw [if_pos hij]
      subst hij
      cases o with
      | ok u => exact .inr (.inr (.inl ⟨rfl, h, ho rfl⟩))
      | error e => exact .inr (.inr (.inr ⟨rfl, fun hv => by rw [h] at hv; cases hv⟩))
    · rw [if_neg hij]
      exact .inl rfl
  | look r => exact .inl rfl
  | @demote j h hb =>
    rw [Ledger.state_demote h]
    by_cases hij : i = j
    · rw [if_pos hij, hij]
      exact .inr (.inr (.inr ⟨rfl, fun _ => hb⟩))
    · rw [if_neg hij]
      exact .inl rfl
  | persist => exact .inl rfl

/-- A step changes no byte of a chunk that is verified and right. -/
theorem Step.sameChunk (h : Step t f s c s') (hr : Ready f s) (hv : s.ledger.state i = .verified)
    (hm : t.Matches (f.content s.disk) i) :
    t.SameChunk i (f.content s'.disk) (f.content s.disk) := by
  rcases h.content hr with hc | ⟨j, r, piece, hj, hrange, hlen, -, hc⟩
  · rw [hc]
    exact fun _ _ _ _ => rfl
  · rw [hc]
    refine sameChunk_overlay (inside_of_matches hm) ?_ hrange hlen
    rintro rfl
    rw [hj] at hv
    cases hv

/-- A chunk that is verified and right stays so, with the same bytes. -/
theorem Step.stable (h : Step t f s c s') (hr : Ready f s) (hv : s.ledger.state i = .verified)
    (hm : t.Matches (f.content s.disk) i) :
    s'.ledger.state i = .verified ∧ t.Matches (f.content s'.disk) i ∧
      t.SameChunk i (f.content s'.disk) (f.content s.disk) := by
  have hsame := h.sameChunk hr hv hm
  refine ⟨?_, matches_of_sameChunk hm hsame, hsame⟩
  rcases h.state i with hs | ⟨-, hne, -⟩ | ⟨hs, -⟩ | ⟨-, hbad⟩
  · rw [hs, hv]
  · exact absurd hv hne
  · exact hs
  · exact absurd hm (hbad hv)

/-- A step keeps right verdicts right, and new verdicts are. -/
theorem Step.sound (h : Step t f s c s') (hr : Ready f s) (hs : SoundOn t f P s) :
    SoundOn t f P s' := by
  intro i hi hv
  rcases h.state i with hsame | ⟨hst, -⟩ | ⟨-, -, hm⟩ | ⟨hst, -⟩
  · rw [hsame] at hv
    have hm := hs i hi hv
    exact matches_of_sameChunk hm (h.sameChunk hr hv hm)
  · rw [hst] at hv; cases hv
  · exact hm
  · rw [hst] at hv; cases hv

/-- The local file does not get shorter. -/
theorem Step.length_le (h : Step t f s c s') (hr : Ready f s) :
    (f.content s.disk).length ≤ (f.content s'.disk).length := by
  rcases h.content hr with hc | ⟨i, r, piece, -, -, -, -, hc⟩
  · exact Nat.le_of_eq (congrArg List.length hc.symm)
  · rw [hc]
    exact Bytes.length_le_overlay _ _ _

/-- What is verified stays inside the local file, and what becomes verified is. -/
theorem Step.covered (h : Step t f s c s') (hr : Ready f s) (hs : Covered t f s) :
    Covered t f s' := by
  intro i hv
  rcases h.state i with hsame | ⟨hst, -⟩ | ⟨-, -, hm⟩ | ⟨hst, -⟩
  · rw [hsame] at hv
    exact fun r hrange => Nat.le_trans (hs i hv r hrange) (h.length_le hr)
  · rw [hst] at hv; cases hv
  · exact inside_of_matches hm
  · rw [hst] at hv; cases hv

/-- A byte that a step changes belongs to a chunk in flight, and no byte gets
lost. -/
theorem Step.changed (h : Step t f s c s') (hr : Ready f s) (hk : k < (f.content s.disk).length) :
    k < (f.content s'.disk).length ∧
    ((f.content s'.disk)[k]? ≠ (f.content s.disk)[k]? → ∃ i r, s.ledger.state i = .fetching ∧
      t.layout.chunkRange? i = some r ∧ r.contains k = true) := by
  refine ⟨Nat.lt_of_lt_of_le hk (h.length_le hr), fun hne => ?_⟩
  rcases h.content hr with hc | ⟨i, r, piece, hi, hrange, hlen, -, hc⟩
  · exact absurd (congrArg (·[k]?) hc) hne
  · rw [hc] at hne
    refine ⟨i, r, hi, hrange, ?_⟩
    rw [ByteRange.contains_iff]
    refine Classical.byContradiction fun hout => hne (Bytes.getElem?_overlay hk ?_)
    unfold ByteRange.size at hlen
    omega

/-! ### What a run does -/

theorem Run.single (h : Step t f s c s') : Run t f s c s' := by
  have hrun := Run.cons h (.nil s')
  rw [List.append_nil] at hrun
  exact hrun

theorem Run.trans (h : Run t f s c s') (h' : Run t f s' cs s'') : Run t f s (c ++ cs) s'' := by
  induction h with
  | nil => exact h'
  | cons hstep _ ih =>
    rw [List.append_assoc]
    exact .cons hstep (ih h')

theorem Run.ready (h : Run t f s c s') (hr : Ready f s) : Ready f s' := by
  induction h with
  | nil => exact hr
  | cons hstep _ ih => exact ih (hstep.ready hr)

theorem Run.stable (h : Run t f s c s') (hr : Ready f s) (hv : s.ledger.state i = .verified)
    (hm : t.Matches (f.content s.disk) i) :
    s'.ledger.state i = .verified ∧ t.Matches (f.content s'.disk) i ∧
      t.SameChunk i (f.content s'.disk) (f.content s.disk) := by
  induction h with
  | nil => exact ⟨hv, hm, fun _ _ _ _ => rfl⟩
  | cons hstep _ ih =>
    obtain ⟨hv', hm', hsame⟩ := hstep.stable hr hv hm
    obtain ⟨hv'', hm'', hsame'⟩ := ih (hstep.ready hr) hv' hm'
    exact ⟨hv'', hm'', fun r k hrange hk => (hsame' r k hrange hk).trans (hsame r k hrange hk)⟩

theorem Run.sound (h : Run t f s c s') (hr : Ready f s) (hs : SoundOn t f P s) :
    SoundOn t f P s' := by
  induction h with
  | nil => exact hs
  | cons hstep _ ih => exact ih (hstep.ready hr) (hstep.sound hr hs)

theorem Run.covered (h : Run t f s c s') (hr : Ready f s) (hs : Covered t f s) :
    Covered t f s' := by
  induction h with
  | nil => exact hs
  | cons hstep _ ih => exact ih (hstep.ready hr) (hstep.covered hr hs)

/-- A chunk in flight was so before the run, or it was claimed in it while it
was not verified. -/
theorem Step.fetching (h : Step t f s c s') (hi : s'.ledger.state i = .fetching) :
    s.ledger.state i = .fetching ∨ ∃ st, (i, st) ∈ c ∧ st ≠ .verified := by
  rcases h.state i with hs | ⟨-, hne, hmem⟩ | ⟨hs, -⟩ | ⟨hs, -⟩
  · exact .inl (hs.symm.trans hi)
  · exact .inr ⟨_, hmem, hne⟩
  · rw [hs] at hi; cases hi
  · rw [hs] at hi; cases hi

/-- A byte that a run changes belongs to a chunk that was in flight before, or
was claimed in the run while it was not verified. -/
theorem Run.changed (h : Run t f s c s') (hr : Ready f s) (hk : k < (f.content s.disk).length)
    (hne : (f.content s'.disk)[k]? ≠ (f.content s.disk)[k]?) :
    ∃ i r, t.layout.chunkRange? i = some r ∧ r.contains k = true ∧
      (s.ledger.state i = .fetching ∨ ∃ st, (i, st) ∈ c ∧ st ≠ .verified) := by
  induction h with
  | nil => exact absurd rfl hne
  | @cons s s' s'' c cs hstep _ ih =>
    obtain ⟨hk', hchange⟩ := hstep.changed hr hk
    by_cases hsame : (f.content s'.disk)[k]? = (f.content s.disk)[k]?
    · rw [← hsame] at hne
      obtain ⟨i, r, hrange, hin, hwho⟩ := ih (hstep.ready hr) hk' hne
      refine ⟨i, r, hrange, hin, ?_⟩
      rcases hwho with hfetch | ⟨st, hmem, hst⟩
      · rcases hstep.fetching hfetch with hfetch | ⟨st, hmem, hst⟩
        · exact .inl hfetch
        · exact .inr ⟨st, List.mem_append_left _ hmem, hst⟩
      · exact .inr ⟨st, List.mem_append_right _ hmem, hst⟩
    · obtain ⟨i, r, hfetch, hrange, hin⟩ := hchange hsame
      exact ⟨i, r, hrange, hin, .inl hfetch⟩

end Site
end VerifiedCopy
