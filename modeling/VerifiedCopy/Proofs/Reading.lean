/-
# Readers give out right bytes

A reader that checks local bytes again has looked at every chunk in `checked`,
or the chunk was not verified when the reader came to it. In either case a
verified chunk in `checked` has the right bytes (`Reader.Sound`): a bad verdict
of old is taken back by the check, and new verdicts are right. All operations of
a reader keep this, and lead from a calm site to a calm site (`Reader.Moves`).

So the bytes that a read gives out are the local bytes of chunks that have the
digests of their leaves (`read_spec`).

Key definitions: `Reader.Sound`, `Reader.Moves`.
Key theorems: `ensureChunk_spec`, `ensureChunks_spec`, `fill_spec`, `read_spec`.
-/
import VerifiedCopy.Proofs.Fetching
import VerifiedCopy.Reader.Cursor

namespace VerifiedCopy
namespace Reader

open Site (Calm Leads Run SoundOn)

variable {σ : Type} [RangeSource σ] {t : Tree} {file : LocalFile} {r r' r'' : Reader}
  {s s' s'' : Site σ} {i : Nat}

/-- A reader can be had if the tree has the size of the entry and the parts fit, and then there is
only one. -/
theorem create_eq_ok_iff {entry : Entry} {g : Ledger} {transfer : TransferConfig}
    {config : ReaderConfig} : Reader.create entry t g file transfer config = .ok r ↔
      entry.totalSize = t.layout.totalSize ∧ Fits transfer t g file ∧
        r = { fetcher := { tree := t, localFile := file, config := transfer }, config } := by
  unfold Reader.create
  simp only [bind_eq_ok_iff, refuse_eq_ok_iff, ne_eq, Decidable.not_not]
  constructor
  · rintro ⟨hsize, ⟨⟩, -, f, hf, h⟩
    obtain ⟨hfits, rfl⟩ := Fetcher.create_eq_ok_iff.1 hf
    exact ⟨hsize, hfits, (Except.ok.inj h).symm⟩
  · rintro ⟨hsize, hfits, rfl⟩
    exact ⟨hsize, (), hfits.valid, _, Fetcher.create_eq_ok_iff.2 ⟨hfits, rfl⟩, rfl⟩

/-- The verified chunks that the reader has come to have the right bytes. -/
def Sound (t : Tree) (file : LocalFile) (r : Reader) (s : Site σ) : Prop :=
  SoundOn t file (fun i => i ∈ r.checked ∧ i < t.leafCount) s

/-- Chunk `i` is verified and has the right bytes. -/
def Holds (t : Tree) (file : LocalFile) (s : Site σ) (i : Nat) : Prop :=
  s.ledger.state i = .verified ∧ t.Matches (file.content s.disk) i

/-- A reader at work from one site to the next: it stays a reader of the same
content with the same settings, and stays sound if it checks local bytes. -/
structure Moves (t : Tree) (file : LocalFile) (r : Reader) (s : Site σ) (r' : Reader)
    (s' : Site σ) : Prop where
  serves : r'.fetcher.Serves t file
  config : r'.config = r.config
  leads : Leads t file s s'
  sound : r.config.recheckLocal = true → Calm file s → Sound t file r s → Sound t file r' s'

theorem Moves.trans (h : Moves t file r s r' s') (h' : Moves t file r' s' r'' s'') :
    Moves t file r s r'' s'' where
  serves := h'.serves
  config := h'.config.trans h.config
  leads := h.leads.trans h'.leads
  sound hre hs hsound :=
    h'.sound (by rw [h.config]; exact hre) (h.leads hs).1 (h.sound hre hs hsound)

/-- Work that does not add to the chunks the reader has come to. -/
theorem Moves.of_leads (hserves : r'.fetcher.Serves t file) (hconfig : r'.config = r.config)
    (hchecked : r'.checked = r.checked) (h : Leads t file s s') : Moves t file r s r' s' where
  serves := hserves
  config := hconfig
  leads := h
  sound _ hs hsound := by
    obtain ⟨-, c, hrun⟩ := h hs
    unfold Sound
    rw [hchecked]
    exact hrun.sound hs.toReady hsound

theorem Moves.refl (h : r.fetcher.Serves t file) (s : Site σ) : Moves t file r s r s :=
  .of_leads h rfl rfl (.refl s)

theorem holds_of_leads (h : Leads t file s s') (hs : Calm file s) (hi : Holds t file s i) :
    Holds t file s' i := by
  obtain ⟨-, c, hrun⟩ := h hs
  obtain ⟨hv, hm, -⟩ := hrun.stable hs.toReady hi.1 hi.2
  exact ⟨hv, hm⟩

/-! ### Making sure of chunks -/

/-- After its first look at a chunk a reader has come to it, and its verdict is
right if it is good. -/
theorem recheckOnce_spec (h : r.fetcher.Serves t file) (i : Nat) (s : Site σ) :
    Moves t file r s (r.recheckOnce i s).2.1 (r.recheckOnce i s).2.2 ∧
      (r.config.recheckLocal = true → (r.recheckOnce i s).1 = .ok () →
        i ∈ (r.recheckOnce i s).2.1.checked) := by
  unfold recheckOnce
  split
  · rename_i hcond
    obtain ⟨hleads, hgood⟩ := Fetcher.recheck_spec h i s
    rcases hr : r.fetcher.recheck i s with ⟨e | ok, s'⟩
    · rw [hr] at hleads
      exact ⟨.of_leads h rfl rfl hleads, fun _ => (nomatch ·)⟩
    · rw [hr] at hleads hgood
      refine ⟨⟨h, rfl, hleads, fun _ hs hsound => ?_⟩, fun _ _ => List.mem_cons_self⟩
      obtain ⟨-, c, hrun⟩ := hleads hs
      rintro j ⟨hj, hlt⟩ hv
      rcases List.mem_cons.1 hj with rfl | hj
      · exact hgood ok rfl hlt hv
      · exact hrun.sound hs.toReady hsound j ⟨hj, hlt⟩ hv
  · rename_i hcond
    refine ⟨.refl h s, fun hre _ => ?_⟩
    rw [hre, Bool.true_and, Bool.not_eq_true', Bool.not_eq_false, List.contains_iff_mem] at hcond
    exact hcond

/-- A chunk that a sound reader has made sure of is verified and has the right
bytes. -/
theorem ensureChunk_spec (h : r.fetcher.Serves t file) (i : Nat) (s : Site σ) :
    Moves t file r s (r.ensureChunk i s).2.1 (r.ensureChunk i s).2.2 ∧
      (r.config.recheckLocal = true → Calm file s → Sound t file r s → i < t.leafCount →
        (r.ensureChunk i s).1 = .ok () → Holds t file (r.ensureChunk i s).2.2 i) := by
  obtain ⟨hmoves, hchecked⟩ := recheckOnce_spec h i s
  unfold ensureChunk
  rcases hr : r.recheckOnce i s with ⟨e | u, r', s'⟩
  · rw [hr] at hmoves
    exact ⟨hmoves, fun _ _ _ _ h => nomatch h⟩
  · rw [hr] at hmoves hchecked
    have hensure := Fetcher.ensure_leads hmoves.serves i s'
    have hmoves' : Moves t file r' s' r' (r'.fetcher.ensure i s').2 :=
      .of_leads hmoves.serves rfl rfl hensure
    -- The chunk is verified and was come to, so its verdict is right.
    have hholds : ∀ out, (r'.fetcher.ensure i s').1 = .ok out → r.config.recheckLocal = true →
        Calm file s → Sound t file r s → i < t.leafCount →
        Holds t file (r'.fetcher.ensure i s').2 i := by
      intro out hout hre hs hsound hi
      obtain ⟨-, -, hv⟩ := Fetcher.ensure_spec hmoves.serves i (hmoves.leads hs).1
      have hsound' := (hmoves.trans hmoves').sound hre hs hsound
      exact ⟨hv out hout, hsound' i ⟨hchecked hre rfl, hi⟩ (hv out hout)⟩
    dsimp only
    rcases he : r'.fetcher.ensure i s' with ⟨e | out, s''⟩
    · rw [he] at hmoves'
      exact ⟨hmoves.trans hmoves', fun _ _ _ _ h => nomatch h⟩
    · rw [he] at hmoves' hholds
      have hall := hmoves.trans hmoves'
      cases out with
      | alreadyVerified => exact ⟨hall, fun hre hs hsound hi _ => hholds _ rfl hre hs hsound hi⟩
      | joined => exact ⟨hall, fun hre hs hsound hi _ => hholds _ rfl hre hs hsound hi⟩
      | fetched n =>
        obtain ⟨hserves, hnote⟩ := Fetcher.noteFetched_leads hmoves.serves s''
        have hmoves'' : Moves t file r' s'' { r' with fetcher := (r'.fetcher.noteFetched s'').2.1 }
            (r'.fetcher.noteFetched s'').2.2 := .of_leads hserves rfl rfl hnote
        refine ⟨hall.trans hmoves'', fun hre hs hsound hi _ => ?_⟩
        exact holds_of_leads hnote (hall.leads hs).1 (hholds _ rfl hre hs hsound hi)

/-- Chunks that a sound reader has made sure of are verified and have the right
bytes, also those that it came to first. -/
theorem ensureChunks_spec (l : List Nat) (h : r.fetcher.Serves t file) (s : Site σ) :
    Moves t file r s (ensureChunks l r s).2.1 (ensureChunks l r s).2.2 ∧
      (r.config.recheckLocal = true → Calm file s → Sound t file r s → (∀ i ∈ l, i < t.leafCount) →
        (ensureChunks l r s).1 = .ok () → ∀ i ∈ l, Holds t file (ensureChunks l r s).2.2 i) := by
  induction l generalizing r s with
  | nil => exact ⟨.refl h s, fun _ _ _ _ _ => List.forall_mem_nil _⟩
  | cons i rest ih =>
    obtain ⟨hmoves, hholds⟩ := ensureChunk_spec h i s
    unfold ensureChunks
    rcases he : r.ensureChunk i s with ⟨e | u, r', s'⟩
    · rw [he] at hmoves
      exact ⟨hmoves, fun _ _ _ _ h => nomatch h⟩
    · rw [he] at hmoves hholds
      obtain ⟨hmoves', hrest⟩ := ih hmoves.serves s'
      refine ⟨hmoves.trans hmoves', fun hre hs hsound hlt hok => ?_⟩
      have hs' := (hmoves.leads hs).1
      rw [List.forall_mem_cons] at hlt ⊢
      refine ⟨?_, ?_⟩
      · exact holds_of_leads hmoves'.leads hs' (hholds hre hs hsound hlt.1 rfl)
      · exact hrest (by rw [hmoves.config]; exact hre) hs' (hmoves.sound hre hs hsound) hlt.2 hok

/-! ### Reads -/

/-- The bytes of a range as a reader gives them out: the local bytes, all of
them, of chunks that are verified and have the right bytes. -/
structure Given (t : Tree) (file : LocalFile) (range : ByteRange) (b : Bytes) (s : Site σ) :
    Prop where
  inside : range.stop ≤ t.layout.totalSize
  bytes : b = (file.content s.disk).slice range.start range.size
  length : b.length = range.size
  holds : ∀ i ∈ t.layout.overlapping range, Holds t file s i

/-- What was given out stays the local bytes. -/
theorem Given.of_leads {range : ByteRange} {b : Bytes} (h : Given t file range b s)
    (hleads : Leads t file s s') (hs : Calm file s) : Given t file range b s' where
  inside := h.inside
  bytes := by
    obtain ⟨-, c, hrun⟩ := hleads hs
    have hinside := h.inside
    rw [h.bytes]
    refine Bytes.slice_congr fun k hk hk' => ?_
    have hin := ByteRange.contains_iff_size.2 ⟨hk, hk'⟩
    have hlt : k < t.layout.totalSize := by
      rw [ByteRange.contains_iff] at hin
      omega
    -- The chunk that holds position `k` keeps its bytes.
    obtain ⟨hv, hm⟩ := h.holds (k / t.layout.chunkSize)
      (Layout.mem_overlapping_iff.2 ⟨k, hin, hlt, rfl⟩)
    obtain ⟨-, -, hsame⟩ := hrun.stable hs.toReady hv hm
    obtain ⟨cr, hcr, -⟩ := hm
    exact (hsame cr k hcr ((Layout.contains_chunkRange?_iff hcr).2 ⟨hlt, rfl⟩)).symm
  length := h.length
  holds i hi := holds_of_leads hleads hs (h.holds i hi)

theorem fill_spec (h : r.fetcher.Serves t file) (range : ByteRange) (s : Site σ) :
    Moves t file r s (r.fill range s).2.1 (r.fill range s).2.2 ∧
      (r.config.recheckLocal = true → Calm file s → Sound t file r s →
        range.stop ≤ t.layout.totalSize → ∀ b, (r.fill range s).1 = .ok b →
          Given t file range b (r.fill range s).2.2) := by
  have hlayout : r.fetcher.layout = t.layout := by unfold Fetcher.layout; rw [h.1]
  obtain ⟨hmoves, hholds⟩ := ensureChunks_spec (t.layout.overlapping range) h s
  unfold fill
  rw [hlayout]
  rcases he : ensureChunks (t.layout.overlapping range) r s with ⟨e | u, r', s'⟩
  · rw [he] at hmoves
    exact ⟨hmoves, fun _ _ _ _ _ h => nomatch h⟩
  · rw [he] at hmoves hholds
    have hlook : Leads t file s' { s' with disk := (file.readRange range s'.disk).2 } :=
      .of_step (.look s' range) id
    dsimp only
    rw [hmoves.serves.2]
    refine ⟨hmoves.trans (.of_leads hmoves.serves rfl rfl hlook),
      fun hre hs hsound hinside b hb => ?_⟩
    obtain ⟨hbytes, hlen⟩ := Fetcher.readRange_eq_ok hb
    have hcontent := (Site.sameFiles_readRange file range s'.disk).content_eq file
    refine ⟨hinside, by rw [hcontent]; exact hbytes, hlen, fun i hi => ?_⟩
    refine holds_of_leads hlook (hmoves.leads hs).1 ?_
    exact hholds hre hs hsound (fun j hj => Layout.lt_of_mem_overlapping hj) rfl i hi

omit [RangeSource σ] in
theorem noteRead_fetcher (r : Reader) (range : ByteRange) (g : Ledger) :
    (r.noteRead range g).2.fetcher = r.fetcher ∧ (r.noteRead range g).2.config = r.config ∧
      (r.noteRead range g).2.checked = r.checked := by
  unfold noteRead
  dsimp only
  split
  · exact ⟨rfl, rfl, rfl⟩
  · split
    · exact ⟨rfl, rfl, rfl⟩
    · split <;> exact ⟨rfl, rfl, rfl⟩

omit [RangeSource σ] in
theorem checkBounds_eq_ok {range : ByteRange} (h : r.fetcher.Serves t file)
    (hok : r.checkBounds range = .ok ()) : range.stop ≤ t.layout.totalSize := by
  unfold checkBounds size Fetcher.layout at hok
  rw [h.1] at hok
  split at hok
  · cases hok
  · omega

theorem readRange_spec (h : r.fetcher.Serves t file) (range : ByteRange) (s : Site σ) :
    Moves t file r s (r.readRange range s).2.1 (r.readRange range s).2.2 ∧
      (r.config.recheckLocal = true → Calm file s → Sound t file r s →
        ∀ b window, (r.readRange range s).1 = .ok (b, window) →
          Given t file range b (r.readRange range s).2.2) := by
  obtain ⟨hmoves, hgiven⟩ := fill_spec h range s
  unfold readRange
  rcases hb : r.checkBounds range with e | u
  · exact ⟨.refl h s, fun _ _ _ _ _ hok => by cases hok⟩
  · have hinside := checkBounds_eq_ok h hb
    dsimp only
    split
    · rename_i hempty
      refine ⟨.refl h s, fun _ _ _ b window hok => ?_⟩
      cases hok
      have hsize := ByteRange.isEmpty_iff.1 hempty
      refine ⟨hinside, by rw [hsize, Bytes.slice_zero], hsize.symm, fun i hi => ?_⟩
      rw [Layout.overlapping_of_empty _ hempty] at hi
      exact absurd hi List.not_mem_nil
    · rcases hf : r.fill range s with ⟨e | b, r', s'⟩
      · rw [hf] at hmoves
        exact ⟨hmoves, fun _ _ _ _ _ hok => by cases hok⟩
      · rw [hf] at hmoves hgiven
        obtain ⟨hfetcher, hconfig, hchecked⟩ := noteRead_fetcher r' range s'.ledger
        refine ⟨hmoves.trans (.of_leads ?_ hconfig hchecked (.refl s')),
          fun hre hs hsound b' window hok => ?_⟩
        · show (r'.noteRead range s'.ledger).2.fetcher.Serves t file
          rw [hfetcher]
          exact hmoves.serves
        · cases hok
          exact hgiven hre hs hsound hinside b rfl

/-! ### Jobs of a reader -/

theorem runJob_moves (h : r.fetcher.Serves t file) (j : Job) (s : Site σ) :
    Moves t file r s (r.runJob j s).2.1 (r.runJob j s).2.2 := by
  obtain ⟨hserves, hleads⟩ := Job.run_leads h j s
  exact .of_leads hserves rfl rfl hleads

theorem readAhead_moves (h : r.fetcher.Serves t file) (window : List Nat) (s : Site σ) :
    Moves t file r s (r.readAhead window s).1 (r.readAhead window s).2 := by
  unfold readAhead
  split
  · exact .refl h s
  · split
    · exact .refl h s
    · rename_i j _
      have hjob := runJob_moves h j s
      exact hjob.trans (.of_leads hjob.serves rfl rfl (.refl _))

/-- What a read gives out is right when it returns, also after the job that
reads ahead. -/
theorem read_spec (h : r.fetcher.Serves t file) (range : ByteRange) (s : Site σ) :
    Moves t file r s (r.read range s).2.1 (r.read range s).2.2 ∧
      (r.config.recheckLocal = true → Calm file s → Sound t file r s →
        ∀ b, (r.read range s).1 = .ok b → Given t file range b (r.read range s).2.2) := by
  obtain ⟨hmoves, hgiven⟩ := readRange_spec h range s
  unfold read
  rcases hr : r.readRange range s with ⟨e | ⟨b, window⟩, r', s'⟩
  · rw [hr] at hmoves
    exact ⟨hmoves, fun _ _ _ _ h => nomatch h⟩
  · rw [hr] at hmoves hgiven
    have hahead := readAhead_moves hmoves.serves window s'
    refine ⟨hmoves.trans hahead, fun hre hs hsound b' hok => ?_⟩
    cases hok
    exact (hgiven hre hs hsound b window rfl).of_leads hahead.leads (hmoves.leads hs).1

theorem prebuffer_moves (h : r.fetcher.Serves t file) (range : ByteRange) (s : Site σ) :
    Moves t file r s (r.prebuffer range s).2.1 (r.prebuffer range s).2.2 := by
  unfold prebuffer
  split
  · exact .refl h s
  · rename_i j _
    exact runJob_moves h j s

end Reader

/-- A cursor moves its reader as a read does, or not at all. -/
theorem Cursor.read_moves {σ : Type} [RangeSource σ] {t : Tree} {file : LocalFile} {c : Cursor}
    (h : c.reader.fetcher.Serves t file) (n : Nat) (s : Site σ) :
    Reader.Moves t file c.reader s (c.read n s).2.1.reader (c.read n s).2.2 := by
  unfold Cursor.read
  dsimp only
  split
  · exact .refl h s
  · split
    · exact .refl h s
    · rename_i range _
      obtain ⟨hmoves, -⟩ := Reader.read_spec h range s
      rcases hr : c.reader.read range s with ⟨e | b, r', s'⟩
      · rw [hr] at hmoves; exact hmoves
      · rw [hr] at hmoves; exact hmoves

end VerifiedCopy
