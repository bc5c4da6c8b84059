/-
# Open caches stay usable

Downloads and readers check their parts again: the settings, the size and the root of the
tree, the number of chunks in the ledger, the size of the local file, and the chunks that
are asked for. An opening has looked at all of that already, by whatever way it came to
the tree and the ledger (`coherent_of_openAt`). Of all these parts only the ledger
changes while the cache is open, and nothing that is done changes the number of its
chunks: not the calls of sessions, not the single moves of workers, not calls on the
ledger itself, and not what others do to the disk (`operate_chunkCount`). So an open
cache gives out downloads and readers for as long as it is open (`open_stays_usable`).

Key definitions: `Cache.InUse`, `Cache.Operation`, `Cache.operate`, `Cache.Coherent`.
Key theorems: `Fetcher.routine_chunkCount`, `Crew.turn_chunkCount`,
`Session.perform_chunkCount`, `operate_chunkCount`, `coherent_of_openAt`,
`open_stays_usable`.
-/
import VerifiedCopy.Proofs.Admission
import VerifiedCopy.Proofs.Routine

namespace VerifiedCopy

variable {σ : Type}

/-! ### Nothing changes the number of chunks -/

namespace Fetcher

theorem recheck_chunkCount (f : Fetcher) (i : Nat) (s : Site σ) :
    (f.recheck i s).2.ledger.chunkCount = s.ledger.chunkCount := by
  obtain ⟨hledger, -, -⟩ := f.look_spec i s
  rw [recheck_eq_look]
  rcases hl : f.look i s with ⟨_ | _, s'⟩
  · rw [hl] at hledger
    exact congrArg Ledger.chunkCount hledger
  · rw [hl] at hledger
    exact Ledger.demote_chunkCount.trans (congrArg Ledger.chunkCount hledger)

theorem close_ledger (f : Fetcher) (s : Site σ) : (f.close s).ledger = s.ledger := by
  unfold close
  split <;> rfl

variable [RangeSource σ]

/-- Nothing that is done with jobs and readers changes the number of chunks. -/
theorem routine_chunkCount :
    Routine (σ := σ) fun _ s _ s' => s'.ledger.chunkCount = s.ledger.chunkCount where
  refl _ _ := rfl
  trans h h' := h'.trans h
  trial f i s := (f.trial_spec i s).ledger.chunkCount
  flush _ _ := rfl
  recheck f i s := f.recheck_chunkCount i s
  look _ _ _ := rfl

theorem ensure_chunkCount (f : Fetcher) (i : Nat) (s : Site σ) :
    (f.ensure i s).2.ledger.chunkCount = s.ledger.chunkCount := by
  have hensured := f.ensure_cases i s
  rcases he : f.ensure i s with ⟨r, s'⟩
  rw [he] at hensured
  cases hensured with
  | outside _ | already _ => rfl
  | joined _ ht _ | fetched _ _ ht _ | failed _ _ ht _ => exact ht.ledger.chunkCount

end Fetcher

open Fetcher (routine_chunkCount)

namespace Stage

theorem take_chunkCount (f : Fetcher) (i : Nat) (s : Site σ) :
    (take f i s).2.ledger.chunkCount = s.ledger.chunkCount := by
  have hclaim : (s.ledger.claim i).2.chunkCount = s.ledger.chunkCount :=
    (Desk.effect_claim ⟨s.ledger, []⟩ i).chunkCount
  unfold take
  rcases hc : s.ledger.claim i with ⟨e | c, g⟩
  · rfl
  · rw [hc] at hclaim
    cases c with
    | verified | inFlight => exact hclaim
    | owner ticket =>
      dsimp only
      split <;> exact hclaim

theorem go_chunkCount [RangeSource σ] (st : Stage) (f : Fetcher) (s : Site σ) :
    (st.go f s).2.2.ledger.chunkCount = s.ledger.chunkCount := by
  cases st with
  | idle | asking | joining => rfl
  | judged i r left attempt j =>
    by_cases hgood : ∃ b, j = .good b
    · obtain ⟨b, rfl⟩ := hgood
      show (f.deliver i r b s).2.ledger.chunkCount = _
      unfold Fetcher.deliver
      split <;> rfl
    · rw [go_judged fun b hb => hgood ⟨b, hb⟩]
      rfl
  | closing i result =>
    cases result with
    | error e => exact Ledger.settle_chunkCount
    | ok n => exact Ledger.settle_chunkCount
  | counting => exact congrArg Ledger.chunkCount (f.noteFetched_quiet s).2.1

end Stage

namespace Crew

theorem work_chunkCount {c : Crew σ} (w : Nat)
    {move : Fetcher → Stage → Stage × Fetcher × Site σ}
    (h : ∀ f st, (move f st).2.2.ledger.chunkCount = c.site.ledger.chunkCount) :
    (c.work w move).site.ledger.chunkCount = c.site.ledger.chunkCount := by
  unfold work
  split
  · rfl
  · split
    · rfl
    · exact h _ _

variable [RangeSource σ]

theorem turn_chunkCount (c : Crew σ) (turn : Turn) :
    (c.turn turn).site.ledger.chunkCount = c.site.ledger.chunkCount := by
  cases turn with
  | take w i =>
    refine work_chunkCount w fun f st => ?_
    cases st with
    | idle => exact Stage.take_chunkCount f i c.site
    | asking | judged | closing | counting | joining => rfl
  | go w => exact work_chunkCount w fun f st => st.go_chunkCount f c.site
  | save => rfl

theorem turns_chunkCount (turns : List Turn) (c : Crew σ) :
    (c.turns turns).site.ledger.chunkCount = c.site.ledger.chunkCount := by
  induction turns generalizing c with
  | nil => rfl
  | cons turn rest ih => exact (ih (c.turn turn)).trans (c.turn_chunkCount turn)

end Crew

theorem download_chunkCount [RangeSource σ] (transfer : TransferConfig) (entry : Entry) (t : Tree)
    (file : LocalFile) (indices : List Nat) (s : Site σ) :
    (download transfer entry t file indices s).2.ledger.chunkCount = s.ledger.chunkCount := by
  unfold download
  split
  · rfl
  · rename_i f j _
    have hclose := (j.run f s).2.1.close_ledger (j.run f s).2.2
    exact (congrArg Ledger.chunkCount hclose).trans (routine_chunkCount.run j f s)

theorem Cursor.read_chunkCount [RangeSource σ] (c : Cursor) (n : Nat) (s : Site σ) :
    (c.read n s).2.2.ledger.chunkCount = s.ledger.chunkCount := by
  unfold Cursor.read
  dsimp only
  split
  · rfl
  · split
    · rfl
    · rename_i range _
      have hread := routine_chunkCount.read c.reader range s
      rcases hr : c.reader.read range s with ⟨e | b, r', s'⟩
      · rw [hr] at hread
        exact hread
      · rw [hr] at hread
        exact hread

namespace Session

theorem onFetcher_chunkCount (m : Session σ) (k : Nat) {work : Fetcher → Site σ → Fetcher × Site σ}
    (h : ∀ f s, (work f s).2.ledger.chunkCount = s.ledger.chunkCount) :
    (m.onFetcher k work).site.ledger.chunkCount = m.site.ledger.chunkCount := by
  unfold onFetcher
  split
  · rfl
  · exact h _ _

theorem onReader_chunkCount (m : Session σ) (k : Nat) {work : Reader → Site σ → Reader × Site σ}
    (h : ∀ r s, (work r s).2.ledger.chunkCount = s.ledger.chunkCount) :
    (m.onReader k work).site.ledger.chunkCount = m.site.ledger.chunkCount := by
  unfold onReader
  split
  · rfl
  · exact h _ _

theorem perform_chunkCount [RangeSource σ] (t : Tree) (file : LocalFile) (m : Session σ)
    (c : Call) : (m.perform t file c).site.ledger.chunkCount = m.site.ledger.chunkCount := by
  cases c with
  | openFetcher config =>
    simp only [perform]
    split <;> rfl
  | openReader entry transfer config =>
    simp only [perform]
    split <;> rfl
  | ensure k i => exact m.onFetcher_chunkCount k fun f s => f.ensure_chunkCount i s
  | recheck k i => exact m.onFetcher_chunkCount k fun f s => f.recheck_chunkCount i s
  | download config entry indices => exact download_chunkCount config entry t file indices m.site
  | advance k j n => exact m.onFetcher_chunkCount k fun f s => routine_chunkCount.advance j n f s
  | finish k j => exact m.onFetcher_chunkCount k fun f s => routine_chunkCount.finish j f s
  | crew ks turns =>
    simp only [perform]
    split
    · exact Crew.turns_chunkCount turns _
    · rfl
  | read k range => exact m.onReader_chunkCount k fun r s => routine_chunkCount.read r range s
  | prebuffer k range =>
    exact m.onReader_chunkCount k fun r s => routine_chunkCount.prebuffer r range s
  | cursorRead k position n =>
    exact m.onReader_chunkCount k fun r s => Cursor.read_chunkCount ⟨r, position⟩ n s
  | readRange k range =>
    exact m.onReader_chunkCount k fun r s => routine_chunkCount.readRange r range s
  | prefetch k j n =>
    exact m.onReader_chunkCount k fun r s => routine_chunkCount.advance j n r.fetcher s
  | settle k j => exact m.onReader_chunkCount k fun r s => routine_chunkCount.finish j r.fetcher s

end Session

/-! ### A cache in use -/

namespace Cache

/-- An open cache with all that is at work on it: the session with its fetchers and
readers, workers at their stages, each with the number of its fetcher, and the tickets
that are out. -/
structure InUse (σ : Type) where
  session : Session σ
  workers : List (Nat × Stage) := []
  tickets : List Ticket := []

/-- What can happen while a cache is open. -/
inductive Operation (σ : Type) where
  /-- A call of the session, from its beginning to its end. -/
  | call (x : Call)
  /-- A download of everything, from its beginning to its end. -/
  | download
  /-- A download that is left to the background: its fetcher stays, and its job gets on by
  calls or by moves of workers. -/
  | start
  /-- A reader is asked for. -/
  | reader
  /-- A worker comes, to work with fetcher `k`. -/
  | hire (k : Nat)
  /-- A worker makes a move, or somebody saves the ledger. -/
  | turn (x : Turn)
  /-- A call on the ledger itself. -/
  | desk (x : Desk.Call)
  /-- Somebody else settles chunk `i`. -/
  | settleOther (i : Nat)
  /-- The disk and the source become what others make of them, and others come and go that
  have chunks in flight. -/
  | elsewhere (d : Disk) (x : σ) (others : List (Nat × Outcome))

variable [RangeSource σ]

/-- The cache in use after an operation. -/
def operate (c : Cache) (u : InUse σ) : Operation σ → InUse σ
  | .call x => { u with session := u.session.perform c.tree c.localFile x }
  | .download =>
    let (_, s) := c.download u.session.site
    { u with session := { u.session with site := s } }
  | .start =>
    match c.prepareDownload u.session.site.ledger with
    | .error _ => u
    | .ok (f, _) =>
      { u with session := { u.session with fetchers := u.session.fetchers ++ [f] } }
  | .reader =>
    match c.reader u.session.site.ledger with
    | .error _ => u
    | .ok r => { u with session := { u.session with readers := u.session.readers ++ [r] } }
  | .hire k => { u with workers := u.workers ++ [(k, .idle)] }
  | .turn x =>
    let crew := Crew.turn ⟨u.session.site, u.session.fetchers, u.workers⟩ x
    { u with
      session := { u.session with site := crew.site, fetchers := crew.fetchers }
      workers := crew.workers }
  | .desk x =>
    let desk := Desk.carryOut ⟨u.session.site.ledger, u.tickets⟩ x
    { u with
      session := { u.session with site := { u.session.site with ledger := desk.ledger } }
      tickets := desk.tickets }
  | .settleOther i =>
    { u with session := { u.session with site := u.session.site.settleOther i } }
  | .elsewhere d x others =>
    { u with session := { u.session with
      site := { u.session.site with disk := d, source := x, others } } }

/-- The cache in use after some operations. -/
def operateAll (c : Cache) (u : InUse σ) : List (Operation σ) → InUse σ
  | [] => u
  | x :: rest => operateAll c (c.operate u x) rest

theorem operate_chunkCount (c : Cache) (u : InUse σ) (x : Operation σ) :
    (c.operate u x).session.site.ledger.chunkCount = u.session.site.ledger.chunkCount := by
  cases x with
  | call x => exact u.session.perform_chunkCount c.tree c.localFile x
  | download => exact download_chunkCount _ _ _ _ _ u.session.site
  | start =>
    unfold operate
    dsimp only
    split <;> rfl
  | reader =>
    unfold operate
    dsimp only
    split <;> rfl
  | hire | elsewhere => rfl
  | turn x => exact Crew.turn_chunkCount ⟨u.session.site, u.session.fetchers, u.workers⟩ x
  | desk x => exact (Desk.carryOut_effect ⟨u.session.site.ledger, u.tickets⟩ x).chunkCount
  | settleOther i => exact Ledger.settle_chunkCount

theorem operateAll_chunkCount (c : Cache) (u : InUse σ) (xs : List (Operation σ)) :
    (c.operateAll u xs).session.site.ledger.chunkCount = u.session.site.ledger.chunkCount := by
  induction xs generalizing u with
  | nil => rfl
  | cons x rest ih => exact (ih (c.operate u x)).trans (c.operate_chunkCount u x)

/-! ### What an opening has looked at -/

/-- The parts of an open cache fit together: the tree is that of the entry, and it fits the
settings, the ledger and the local file. -/
structure Coherent (c : Cache) (g : Ledger) : Prop where
  tree : c.entry.check c.tree = .ok ()
  fits : Fits c.config.transfer c.tree g c.localFile

namespace Coherent

variable {c : Cache} {g g' : Ledger}

/-- Of the ledger only the number of chunks counts. -/
theorem of_chunkCount (h : c.Coherent g) (hcount : g'.chunkCount = g.chunkCount) :
    c.Coherent g' :=
  ⟨h.tree, h.fits.valid, hcount.trans h.fits.chunks, h.fits.size⟩

theorem exists_prepareDownload (h : c.Coherent g) : ∃ p, c.prepareDownload g = .ok p :=
  prepareDownload_accepts_iff.2 ⟨h.tree, h.fits, fun _ hi => List.mem_range.1 hi⟩

theorem exists_download {s : Site σ} (h : c.Coherent s.ledger) :
    ∃ job, (c.download s).1 = .ok job :=
  download_accepts_iff.2 ⟨h.tree, h.fits, fun _ hi => List.mem_range.1 hi⟩

theorem exists_reader (h : c.Coherent g) : ∃ r, c.reader g = .ok r :=
  Reader.create_accepts_iff.2 ⟨(Entry.check_eq_ok_iff.1 h.tree).1, h.fits⟩

end Coherent

end Cache

/-- A file that was opened in some size has that size, for good. -/
theorem LocalFile.openSized_totalSize {p : Path} {size : Nat} {d d' : Disk} {f : LocalFile}
    (h : openSized p size d = (.ok f, d')) : f.totalSize = size := by
  unfold openSized at h
  split at h
  · cases h
  · split at h
    · cases h
    · unfold fit at h
      split at h
      · cases h
        rfl
      · dsimp only at h
        split at h
        · cases h
        · cases h
          rfl

theorem LocalFile.lock_totalSize {f f' : LocalFile} {d d' : Disk} (h : f.lock d = (.ok f', d')) :
    f'.totalSize = f.totalSize := by
  unfold lock at h
  split at h
  · cases h
    rfl
  · cases h

/-- A ledger that was opened for some number of chunks has that many, whether it was found or
made. -/
theorem Ledger.openOrCreate_chunkCount {p : Path} {count : Nat} {d d' : Disk} {g : Ledger}
    (h : openOrCreate p count d = (.ok g, d')) : g.chunkCount = count := by
  unfold openOrCreate at h
  split at h
  · split at h
    · cases h
    · obtain ⟨hside, -⟩ := Prod.mk.inj h
      unfold ofSidecar at hside
      obtain ⟨g', -, hside⟩ := bind_eq_ok_iff.1 hside
      obtain ⟨hcount, hside⟩ := refuse_eq_ok_iff.1 hside
      cases hside
      exact Decidable.not_not.1 hcount
  · dsimp only at h
    split at h
    · cases h
    · cases h
      rfl

namespace Cache

variable {entry : Entry} {path : Path} {config : Config} {d d' : Disk} {c : Cache} {g : Ledger}

theorem openFiles_fits {size count : Nat} {f : LocalFile}
    (h : openFiles path size count d = (.ok (f, g), d')) :
    f.totalSize = size ∧ g.chunkCount = count := by
  unfold openFiles at h
  split at h
  · cases h
  · rename_i f₁ d₁ hsized
    split at h
    · cases h
    · rename_i f₂ d₂ hlock
      split at h
      · cases h
      · rename_i g' d₃ hledger
        cases h
        exact ⟨(LocalFile.lock_totalSize hlock).trans (LocalFile.openSized_totalSize hsized),
          Ledger.openOrCreate_chunkCount hledger⟩

theorem checkTree_eq_ok {t : Tree} (h : checkTree entry path t = .ok ()) :
    entry.check t = .ok () := by
  unfold checkTree at h
  unfold Entry.check
  split at h
  · rename_i hsize
    rw [if_pos hsize]
    exact h
  · cases h

/-- Whether the tree was found or made from the manifest, and whether the ledger and the data
file were found or made: the parts of a cache that is open fit together. -/
theorem coherent_of_openAt (h : openAt entry path config d = (.ok (c, g), d')) :
    c.Coherent g := by
  cases openAt_course h with
  | opened t d₁ hconfig hpair ht hok hfiles =>
    -- The files were opened in the sizes of the tree, which is compared with the entry.
    obtain ⟨hsize, hcount⟩ := openFiles_fits hfiles
    have hcheck := checkTree_eq_ok hok
    exact ⟨hcheck, hconfig, hcount, hsize.trans (Entry.check_eq_ok_iff.1 hcheck).1⟩

/-- An open cache stays usable. Whatever the disk held and whatever was done since the
opening, the settings make sense, the tree is that of the entry, the ledger has as many
chunks as the tree, the local file has its size, and the chunks that a download asks for
exist; so a download can be prepared, it starts, and a reader can be had. -/
theorem open_stays_usable [RangeSource σ] (h : openAt entry path config d = (.ok (c, g), d'))
    (x : σ) (xs : List (Operation σ)) :
    let s := (c.operateAll ⟨enter g d' x, [], []⟩ xs).session.site
    (c.config.transfer.validate = .ok () ∧ c.entry.check c.tree = .ok () ∧
      s.ledger.chunkCount = c.tree.leafCount ∧
      c.localFile.totalSize = c.tree.layout.totalSize ∧
      ∀ i ∈ List.range c.tree.leafCount, i < c.tree.layout.chunkCount) ∧
    (∃ p, c.prepareDownload s.ledger = .ok p) ∧ (∃ job, (c.download s).1 = .ok job) ∧
      ∃ r, c.reader s.ledger = .ok r := by
  intro s
  have hs : c.Coherent s.ledger :=
    (coherent_of_openAt h).of_chunkCount (c.operateAll_chunkCount ⟨enter g d' x, [], []⟩ xs)
  exact ⟨⟨hs.fits.valid, hs.tree, hs.fits.chunks, hs.fits.size, fun i hi => List.mem_range.1 hi⟩,
    hs.exists_prepareDownload, hs.exists_download, hs.exists_reader⟩

/-- The letters are being brought in by a worker when the disk is wiped, somebody settles
their chunk, and another reader is asked for. -/
def roughUse : List (Operation ScriptedSource) :=
  [.start, .hire 0, .turn (.take 0 0), .turn (.go 0), .elsewhere {} {} [], .settleOther 0,
    .reader, .desk (.claim 0), .call (.read 0 Session.allLetters)]

theorem open_stays_usable_letters :
    ∃ c g d', openAt lettersEntry "d" {} {} = (.ok (c, g), d') ∧
      let s := (c.operateAll ⟨enter g d' { bytes := Session.letters }, [], []⟩
        roughUse).session.site
      (∃ job, (c.download s).1 = .ok job) ∧ ∃ r, c.reader s.ledger = .ok r := by
  obtain ⟨⟨c, g⟩, hopen⟩ := exists_ok (x := openAt lettersEntry "d" {} {}) (by decide +kernel)
  obtain ⟨-, -, hdownload, hreader⟩ :=
    open_stays_usable hopen ({ bytes := Session.letters } : ScriptedSource) roughUse
  exact ⟨c, g, _, hopen, hdownload, hreader⟩

end Cache
end VerifiedCopy
