/-
# Sessions

A session is all work on one local copy: the site, and the fetchers and readers
at work on it. Calls come in any order, any number of times, and may fail; those
that have a job in the background bring its chunks in whenever they get to it
(`Call.advance`, `Call.prefetch`), and the workers of several jobs can get in each
other's way (`Call.crew`).

From a site where nothing is in flight, every call is a run of steps
(`perform_spec`). So what a run keeps is kept by any sequence of calls. If every
verified chunk has the right bytes to begin with, then it always has, and a call
changes local bytes only where it claimed a chunk that was not verified
(`verified_chunks_match`).

This rests on the local file not being the one that the ledger is written to
before it gets its name: saving to `s` goes by way of `s.tmp`, and a local file of
that name is overwritten with the snapshot (`verified_chunk_overwritten`).

Key definitions: `Session`, `Call`, `Session.perform`, `Session.performAll`,
`Session.Fits`.
Key theorems: `perform_spec`, `performAll_spec`, `verified_chunks_match`.
-/
import VerifiedCopy.Proofs.Crew
import VerifiedCopy.Proofs.Reading
import VerifiedCopy.Source.Scripted

namespace VerifiedCopy

open Site (Calm Leads Run)

/-- The work on one local copy. -/
structure Session (σ : Type) where
  site : Site σ
  fetchers : List Fetcher := []
  readers : List Reader := []

/-- A call in a session. Fetchers and readers are named by their numbers; a call
to one that does not exist does nothing. -/
inductive Call where
  | openFetcher (config : TransferConfig)
  | openReader (entry : Entry) (transfer : TransferConfig) (config : ReaderConfig)
  | ensure (k i : Nat)
  | recheck (k i : Nat)
  | download (config : TransferConfig) (entry : Entry) (indices : List Nat)
  /-- A job in the background gets on by `n` chunks with fetcher `k`. -/
  | advance (k : Nat) (j : Job) (n : Nat)
  /-- A job in the background ends. -/
  | finish (k : Nat) (j : Job)
  /-- Workers with the fetchers `ks` take turns until all of them have come to an
  end. Turns that leave somebody at work are not a call. -/
  | crew (ks : List Nat) (turns : List Turn)
  | read (k : Nat) (range : ByteRange)
  | prebuffer (k : Nat) (range : ByteRange)
  | cursorRead (k position n : Nat)
  /-- A read that leaves its job to the background. -/
  | readRange (k : Nat) (range : ByteRange)
  /-- A job in the background gets on by `n` chunks with the fetcher of reader
  `k`. -/
  | prefetch (k : Nat) (j : Job) (n : Nat)
  /-- A job of reader `k` in the background ends. -/
  | settle (k : Nat) (j : Job)

namespace Session

variable {σ : Type}

/-- Let fetcher `k` work. -/
def onFetcher (m : Session σ) (k : Nat) (work : Fetcher → Site σ → Fetcher × Site σ) :
    Session σ :=
  match m.fetchers[k]? with
  | none => m
  | some f =>
    let (f, s) := work f m.site
    { m with site := s, fetchers := m.fetchers.set k f }

/-- Let reader `k` work. -/
def onReader (m : Session σ) (k : Nat) (work : Reader → Site σ → Reader × Site σ) :
    Session σ :=
  match m.readers[k]? with
  | none => m
  | some r =>
    let (r, s) := work r m.site
    { m with site := s, readers := m.readers.set k r }

variable [RangeSource σ]

/-- The session after a call. -/
def perform (t : Tree) (file : LocalFile) (m : Session σ) : Call → Session σ
  | .openFetcher config =>
    match Fetcher.create t m.site.ledger file config with
    | .error _ => m
    | .ok f => { m with fetchers := m.fetchers ++ [f] }
  | .openReader entry transfer config =>
    match Reader.create entry t m.site.ledger file transfer config with
    | .error _ => m
    | .ok r => { m with readers := m.readers ++ [r] }
  | .ensure k i => m.onFetcher k fun f s => (f, (f.ensure i s).2)
  | .recheck k i => m.onFetcher k fun f s => (f, (f.recheck i s).2)
  | .download config entry indices =>
    { m with site := (VerifiedCopy.download config entry t file indices m.site).2 }
  | .advance k j n => m.onFetcher k fun f s => (j.advance n f s).2
  | .finish k j => m.onFetcher k fun f s => (j.finish f s).2
  | .crew ks turns =>
    let c := Crew.turns turns ⟨m.site, m.fetchers, ks.map fun k => (k, .idle)⟩
    if c.atRest then { m with site := c.site, fetchers := c.fetchers } else m
  | .read k range => m.onReader k fun r s => (r.read range s).2
  | .prebuffer k range => m.onReader k fun r s => (r.prebuffer range s).2
  | .cursorRead k position n => m.onReader k fun r s =>
    let (_, c, s) := Cursor.read ⟨r, position⟩ n s
    (c.reader, s)
  | .readRange k range => m.onReader k fun r s => (r.readRange range s).2
  | .prefetch k j n => m.onReader k fun r s =>
    let (_, f, s) := j.advance n r.fetcher s
    ({ r with fetcher := f }, s)
  | .settle k j => m.onReader k fun r s =>
    let (_, f, s) := j.finish r.fetcher s
    ({ r with fetcher := f }, s)

/-- The session after some calls. -/
def performAll (t : Tree) (file : LocalFile) : List Call → Session σ → Session σ
  | [], m => m
  | c :: calls, m => performAll t file calls (m.perform t file c)

/-- The fetchers and readers are those of the content of `t`, and the readers
that check local bytes are sound. -/
structure Fits (t : Tree) (file : LocalFile) (m : Session σ) : Prop where
  fetchers : ∀ f ∈ m.fetchers, f.Serves t file
  readers : ∀ r ∈ m.readers, r.fetcher.Serves t file ∧
    (r.config.recheckLocal = true → Reader.Sound t file r m.site)

variable {t : Tree} {file : LocalFile} {m : Session σ}

/-! ### Every call is a run -/

/-- Work on the site leaves readers sound that do not take part in it. -/
theorem readers_of_leads {s : Site σ} (hm : Fits t file m) (hcalm : Calm file m.site)
    (h : Leads t file m.site s) : ∀ r ∈ m.readers, r.fetcher.Serves t file ∧
      (r.config.recheckLocal = true → Reader.Sound t file r s) := by
  intro r hr
  obtain ⟨hserves, hsound⟩ := hm.readers r hr
  obtain ⟨-, c, hrun⟩ := h hcalm
  exact ⟨hserves, fun hre => hrun.sound hcalm.toReady (hsound hre)⟩

theorem onFetcher_spec (k : Nat) {work : Fetcher → Site σ → Fetcher × Site σ}
    (hwork : ∀ f s, f.Serves t file → (work f s).1.Serves t file ∧ Leads t file s (work f s).2)
    (hcalm : Calm file m.site) (hm : Fits t file m) :
    Fits t file (m.onFetcher k work) ∧ Leads t file m.site (m.onFetcher k work).site := by
  unfold onFetcher
  split
  · exact ⟨hm, .refl _⟩
  · rename_i f hf
    obtain ⟨hserves, hleads⟩ := hwork f m.site (hm.fetchers f (List.mem_of_getElem? hf))
    have hreaders := readers_of_leads hm hcalm hleads
    refine ⟨⟨fun f' hf' => ?_, hreaders⟩, hleads⟩
    rcases List.mem_or_eq_of_mem_set hf' with hf' | rfl
    · exact hm.fetchers f' hf'
    · exact hserves

theorem onReader_spec (k : Nat) {work : Reader → Site σ → Reader × Site σ}
    (hwork : ∀ r s, r.fetcher.Serves t file →
      Reader.Moves t file r s (work r s).1 (work r s).2)
    (hcalm : Calm file m.site) (hm : Fits t file m) :
    Fits t file (m.onReader k work) ∧ Leads t file m.site (m.onReader k work).site := by
  unfold onReader
  split
  · exact ⟨hm, .refl _⟩
  · rename_i r hr
    obtain ⟨hserves, hsound⟩ := hm.readers r (List.mem_of_getElem? hr)
    have hmoves := hwork r m.site hserves
    have hreaders := readers_of_leads hm hcalm hmoves.leads
    refine ⟨⟨hm.fetchers, fun r' hr' => ?_⟩, hmoves.leads⟩
    rcases List.mem_or_eq_of_mem_set hr' with hr' | rfl
    · exact hreaders r' hr'
    · refine ⟨hmoves.serves, fun hre => ?_⟩
      rw [hmoves.config] at hre
      exact hmoves.sound hre hcalm (hsound hre)

/-- A new reader has come to no chunk yet. -/
theorem reader_create_eq_ok {entry : Entry} {ledger : Ledger} {transfer : TransferConfig}
    {config : ReaderConfig} {r : Reader}
    (h : Reader.create entry t ledger file transfer config = .ok r) :
    r.fetcher.Serves t file ∧ r.checked = [] := by
  obtain ⟨-, -, rfl⟩ := Reader.create_eq_ok_iff.1 h
  exact ⟨⟨rfl, rfl⟩, rfl⟩

/-- A call leads from a calm site to a calm site, and keeps the readers sound. -/
theorem perform_spec (c : Call) (hcalm : Calm file m.site) (hm : Fits t file m) :
    Fits t file (m.perform t file c) ∧ Leads t file m.site (m.perform t file c).site := by
  cases c with
  | openFetcher config =>
    simp only [perform]
    split
    · exact ⟨hm, .refl _⟩
    · rename_i f hf
      refine ⟨⟨?_, hm.readers⟩, .refl _⟩
      rw [List.forall_mem_append, List.forall_mem_singleton]
      exact ⟨hm.fetchers, (Fetcher.create_eq_ok hf).1⟩
  | openReader entry transfer config =>
    simp only [perform]
    split
    · exact ⟨hm, .refl _⟩
    · rename_i r hr
      obtain ⟨hserves, hchecked⟩ := reader_create_eq_ok hr
      refine ⟨⟨hm.fetchers, ?_⟩, .refl _⟩
      rw [List.forall_mem_append, List.forall_mem_singleton]
      refine ⟨hm.readers, hserves, fun _ i hi => ?_⟩
      rw [hchecked] at hi
      exact absurd hi.1 List.not_mem_nil
  | ensure k i =>
    simp only [perform]
    exact onFetcher_spec k (fun f s h => ⟨h, Fetcher.ensure_leads h i s⟩) hcalm hm
  | recheck k i =>
    simp only [perform]
    exact onFetcher_spec k (fun f s h => ⟨h, (Fetcher.recheck_spec h i s).1⟩) hcalm hm
  | download config entry indices =>
    have hleads : Leads t file m.site _ := download_leads config entry indices m.site
    have hreaders := readers_of_leads hm hcalm hleads
    exact ⟨⟨hm.fetchers, hreaders⟩, hleads⟩
  | advance k j n =>
    simp only [perform]
    exact onFetcher_spec k (fun f s h => Job.advance_leads n h j s) hcalm hm
  | finish k j =>
    simp only [perform]
    exact onFetcher_spec k (fun f s h => Job.finish_leads h j s) hcalm hm
  | crew ks turns =>
    simp only [perform]
    split
    · rename_i hrest
      have hleads := Crew.turns_leads hm.fetchers ks turns m.site hrest
      obtain ⟨hsound, -⟩ := Crew.turns_spec turns (Crew.sound_start hcalm hm.fetchers ks)
      have hreaders := readers_of_leads hm hcalm hleads
      exact ⟨⟨hsound.serves, hreaders⟩, hleads⟩
    · exact ⟨hm, .refl _⟩
  | read k range =>
    simp only [perform]
    exact onReader_spec k (fun r s h => (Reader.read_spec h range s).1) hcalm hm
  | prebuffer k range =>
    simp only [perform]
    exact onReader_spec k (fun r s h => Reader.prebuffer_moves h range s) hcalm hm
  | cursorRead k position n =>
    simp only [perform]
    exact onReader_spec k (fun r s h => Cursor.read_moves (c := ⟨r, position⟩) h n s) hcalm hm
  | readRange k range =>
    simp only [perform]
    exact onReader_spec k (fun r s h => (Reader.readRange_spec h range s).1) hcalm hm
  | prefetch k j n =>
    simp only [perform]
    refine onReader_spec k (fun r s h => ?_) hcalm hm
    obtain ⟨hserves, hleads⟩ := Job.advance_leads n h j s
    exact .of_leads hserves rfl rfl hleads
  | settle k j =>
    simp only [perform]
    refine onReader_spec k (fun r s h => ?_) hcalm hm
    obtain ⟨hserves, hleads⟩ := Job.finish_leads h j s
    exact .of_leads hserves rfl rfl hleads

theorem performAll_spec (calls : List Call) (hcalm : Calm file m.site) (hm : Fits t file m) :
    Fits t file (performAll t file calls m) ∧
      Leads t file m.site (performAll t file calls m).site := by
  induction calls generalizing m with
  | nil => exact ⟨hm, .refl _⟩
  | cons c calls ih =>
    obtain ⟨hm', hleads⟩ := perform_spec c hcalm hm
    obtain ⟨hm'', hleads'⟩ := ih (hleads hcalm).1 hm'
    exact ⟨hm'', hleads.trans hleads'⟩

omit [RangeSource σ] in
theorem fits_start (s : Site σ) : Fits t file ⟨s, [], []⟩ :=
  ⟨fun _ h => absurd h List.not_mem_nil, fun _ h => absurd h List.not_mem_nil⟩

/-! ### Verified chunks have the right bytes -/

/-- If every verified chunk has the right bytes and nothing is in flight, this
holds after any calls; and a call changes a byte only in the range of a chunk
that it claimed while the chunk was not verified. -/
theorem verified_chunks_match (t : Tree) (file : LocalFile) (s : Site σ)
    (hidle : s.ledger.inFlight = []) (hknown : s.disk.Knows file.handle)
    (hshield : ∀ p, s.ledger.path = some p → s.disk.Shields p file.handle)
    (hgood : ∀ i, s.ledger.state i = .verified → t.Matches (file.content s.disk) i)
    (calls : List Call) (call : Call) :
    let m := performAll t file calls ⟨s, [], []⟩
    let m' := m.perform t file call
    (∀ i, m.site.ledger.state i = .verified → t.Matches (file.content m.site.disk) i) ∧
      ∃ claims, Run t file m.site claims m'.site ∧
        ∀ k < (file.content m.site.disk).length,
          (file.content m'.site.disk)[k]? ≠ (file.content m.site.disk)[k]? →
            ∃ i st r, (i, st) ∈ claims ∧ st ≠ .verified ∧
              t.layout.chunkRange? i = some r ∧ r.contains k = true := by
  intro m m'
  have hcalm : Calm file s := ⟨⟨hknown, hshield⟩, hidle⟩
  obtain ⟨hm, hleads⟩ := performAll_spec (t := t) calls (m := ⟨s, [], []⟩) hcalm (fits_start s)
  obtain ⟨hcalm', c, hrun⟩ := hleads hcalm
  obtain ⟨-, hleads'⟩ := perform_spec call hcalm' hm
  obtain ⟨-, claims, hcall⟩ := hleads' hcalm'
  refine ⟨fun i hi => ?_, claims, hcall, fun k hk hne => ?_⟩
  · have hsound : Site.SoundOn t file (fun _ => True) s := fun i _ hi => hgood i hi
    exact hrun.sound hcalm.toReady hsound i trivial hi
  · obtain ⟨i, r, hr, hin, hwho⟩ := hcall.changed hcalm'.toReady hk hne
    rcases hwho with hfetch | ⟨st, hmem, hst⟩
    · -- Nothing is in flight between calls.
      obtain ⟨-, flight, hflight⟩ := Ledger.state_eq_fetching_iff.1 hfetch
      unfold Ledger.flight? at hflight
      rw [hcalm'.idle] at hflight
      cases hflight
    · exact ⟨i, st, r, hmem, hst, hr, hin⟩

/-- Eight letters, which make one chunk. -/
def letters : Bytes := [97, 98, 99, 100, 101, 102, 103, 104]

/-- All of the letters. -/
def allLetters : ByteRange := ⟨0, 8, by decide⟩

/-- One chunk of 8 bytes. -/
def lettersLayout : Layout :=
  ⟨8, 8, Nat.le_of_ble_eq_true rfl, Nat.le_of_ble_eq_true rfl, Nat.le_of_ble_eq_true rfl⟩

/-- The tree of the letters. -/
def lettersTree : Tree :=
  ⟨lettersLayout, (heapOfLeaves [Digest.ofLeaf letters]).toArray, [Digest.ofLeaf letters], rfl,
    rfl⟩

/-- A local file with room for the letters. -/
def localCopy (p : Path) : LocalFile := ⟨⟨p, .file 0, true⟩, 8, false⟩

/-- A site with an empty copy under the name `p`, a remote that has the letters,
and a ledger that is kept in `s`. -/
def emptyCopy (p : Path) : Site ScriptedSource where
  ledger := { Ledger.empty 1 with path := some "s" }
  disk := { names := [(p, .file 0)], files := [List.replicate 8 0] }
  source := { bytes := letters }

/-- Bring the letters in. -/
def fetchLetters : List Call := [.download {} { remoteUrl := "", totalSize := 8 } [0]]

theorem emptyCopy_not_verified (p : Path) (i : Nat) :
    (emptyCopy p).ledger.state i ≠ .verified :=
  Ledger.state_empty_ne_verified 1 i

theorem emptyCopy_knows (p : Path) : (emptyCopy p).disk.Knows (localCopy p).handle :=
  Nat.zero_lt_one

theorem verified_chunks_match_letters :
    (emptyCopy "d").ledger.inFlight = [] ∧
      (performAll lettersTree (localCopy "d") fetchLetters
        ⟨emptyCopy "d", [], []⟩).site.ledger.state 0 = .verified ∧
      lettersTree.Matches ((localCopy "d").content (performAll lettersTree (localCopy "d")
        fetchLetters ⟨emptyCopy "d", [], []⟩).site.disk) 0 := by
  have hverified : (performAll lettersTree (localCopy "d") fetchLetters
      ⟨emptyCopy "d", [], []⟩).site.ledger.state 0 = .verified := by decide +kernel
  have hshield : ∀ p, (emptyCopy "d").ledger.path = some p →
      (emptyCopy "d").disk.Shields p (localCopy "d").handle := by
    rintro p ⟨⟩ id -
    have hnone : (emptyCopy "d").disk.node? (temporaryFor "s") = none := by decide +kernel
    rw [hnone]
    exact (nomatch ·)
  refine ⟨rfl, hverified, ?_⟩
  exact (verified_chunks_match lettersTree (localCopy "d") (emptyCopy "d") rfl
    (emptyCopy_knows "d") hshield (fun i hi => absurd hi (emptyCopy_not_verified "d" i))
    fetchLetters (.recheck 0 0)).1 0 hverified

/-- Two workers who want the letters; the second waits for the first. -/
def fetchLettersTwice : List Call :=
  [.openFetcher {}, .crew [0, 0] [.take 0 0, .take 1 0, .go 1, .go 0, .go 0, .go 1, .go 0, .go 1,
    .go 0]]

example : (performAll lettersTree (localCopy "d") fetchLettersTwice
    ⟨emptyCopy "d", [], []⟩).site.ledger.state 0 = .verified := by decide +kernel

/-- Saving the ledger to `s` goes by way of `s.tmp`. If that is the local file, a
chunk that was just verified is overwritten. -/
theorem verified_chunk_overwritten : ¬ ∀ (t : Tree) (file : LocalFile) (s : Site ScriptedSource),
    s.ledger.inFlight = [] → s.disk.Knows file.handle →
      (∀ i, s.ledger.state i = .verified → t.Matches (file.content s.disk) i) →
        ∀ (calls : List Call) (i : Nat),
          (performAll t file calls ⟨s, [], []⟩).site.ledger.state i = .verified →
            t.Matches (file.content (performAll t file calls ⟨s, [], []⟩).site.disk) i := by
  intro h
  obtain ⟨r, hr, -, hleaf⟩ := h lettersTree (localCopy "s.tmp") (emptyCopy "s.tmp") rfl
    (emptyCopy_knows "s.tmp") (fun i hi => absurd hi (emptyCopy_not_verified "s.tmp" i))
    fetchLetters 0 (by decide +kernel)
  obtain rfl : (⟨0, 8, by decide⟩ : ByteRange) = r := Option.some.inj hr
  have hbad : lettersTree.verifyLeaf 0 (((localCopy "s.tmp").content (performAll lettersTree
      (localCopy "s.tmp") fetchLetters ⟨emptyCopy "s.tmp", [], []⟩).site.disk).slice 0 8)
        = false := by decide +kernel
  cases (Site.verifyLeaf_iff.2 hleaf).symm.trans hbad

end Session
end VerifiedCopy
