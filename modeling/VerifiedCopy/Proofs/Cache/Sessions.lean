/-
# One session after another

A cache is opened at the same path with the same entry again and again. In each session
calls are made, and at its end the fetchers, the readers and the cache are given up
(`Cache.visit`). Between two sessions there is only the disk, and the ledger of the last
session is in its sidecar (`Remains.Orderly`). While a session lasts, nothing is in
flight between its calls, the disk is stocked and what is verified has the right bytes
(`Session.Lodged`).

Within sessions and from one to the next, verified chunks stay verified and the source
is asked for others only (`Onward`). If a download succeeds, every chunk is verified,
whatever calls were made while it was under way (`Lodged.downloadAmong`).

Key definitions: `Visit`, `Remains`, `Cache.visit`, `Cache.downloadAmong`,
`Session.Lodged`, `Remains.Orderly`, `Onward`.
Key theorems: `Orderly.opens`, `Lodged.performAll`, `Lodged.leave`, `visits_onward`,
`Lodged.downloadAmong`, `sessions_resume`.
-/
import VerifiedCopy.Proofs.Asking
import VerifiedCopy.Proofs.Cache.Files

namespace VerifiedCopy

open Sidecar (treePath statePath)
open Site (Calm Leads Housed SoundOn)

/-! ### Sessions with a cache -/

/-- A session: the settings that the cache is opened with, and the calls. -/
structure Visit where
  config : Config
  calls : List Call

/-- What sessions leave behind: the disk, the source, and the ledger that the last of
them ended with. -/
structure Remains (σ : Type) where
  disk : Disk
  source : σ
  ledger : Ledger

namespace Cache

variable {σ : Type}

/-- A session begins when the cache is open. -/
def enter (g : Ledger) (d : Disk) (x : σ) : Session σ where
  site := { ledger := g, disk := d, source := x }

/-- Give up the fetchers and the readers, and close the cache. -/
def leave (c : Cache) (m : Session σ) : Site σ :=
  c.close ((m.fetchers ++ m.readers.map Reader.fetcher).foldl (fun s f => f.close s) m.site)

variable [RangeSource σ]

/-- What is left behind after one more session. There is none if the cache cannot be
opened. -/
def visit (entry : Entry) (path : Path) (v : Visit) (x : Remains σ) : Remains σ :=
  match openAt entry path v.config x.disk with
  | (.error _, d) => { x with disk := d }
  | (.ok (c, g), d) =>
    let s := c.leave (Session.performAll c.tree c.localFile v.calls (enter g d x.source))
    ⟨s.disk, s.source, s.ledger⟩

/-- What is left behind after some sessions. -/
def visits (entry : Entry) (path : Path) : List Visit → Remains σ → Remains σ
  | [], x => x
  | v :: rest, x => visits entry path rest (visit entry path v x)

end Cache

/-- A job among other calls: before each turn of the job some calls are made, and then
it takes at most so many chunks. -/
def Job.among {σ : Type} [RangeSource σ] (t : Tree) (file : LocalFile) :
    List (List Call × Nat) → Job → Fetcher → Session σ → Job × Fetcher × Session σ
  | [], j, f, m => (j, f, m)
  | (calls, n) :: rest, j, f, m =>
    let m := Session.performAll t file calls m
    let (j, f, s) := j.advance n f m.site
    among t file rest j f { m with site := s }

/-- Bring in every chunk that is not verified, while other calls are made. -/
def Cache.downloadAmong {σ : Type} [RangeSource σ] (c : Cache) (turns : List (List Call × Nat))
    (m : Session σ) : Except Error Job × Session σ :=
  match c.prepareDownload m.site.ledger with
  | .error e => (.error e, m)
  | .ok (f, j) =>
    let (j, f, m) := j.among c.tree c.localFile turns f m
    let (j, f, s) := j.finish f m.site
    (.ok j, { m with site := f.close s })

theorem Cache.downloadAmong_eq_ok {σ : Type} [RangeSource σ] {c : Cache}
    {turns : List (List Call × Nat)} {m m' : Session σ} {job : Job}
    (h : c.downloadAmong turns m = (.ok job, m')) :
    ∃ f j j₁ f₁ m₁, c.prepareDownload m.site.ledger = .ok (f, j) ∧
      j.among c.tree c.localFile turns f m = (j₁, f₁, m₁) ∧
      job = (j₁.finish f₁ m₁.site).1 ∧
      m' = { m₁ with site :=
        (j₁.finish f₁ m₁.site).2.1.close (j₁.finish f₁ m₁.site).2.2 } := by
  unfold downloadAmong at h
  split at h
  · cases h
  · rename_i f j hprepare
    cases h
    exact ⟨f, j, _, _, _, hprepare, rfl, rfl, rfl⟩

/-- A download that nobody interrupts is one of these. -/
theorem Cache.download_eq_among {σ : Type} [RangeSource σ] (c : Cache) (m : Session σ) :
    ∃ turns, c.downloadAmong turns m =
      ((c.download m.site).1, { m with site := (c.download m.site).2 }) := by
  unfold downloadAmong prepareDownload download VerifiedCopy.download
  rcases VerifiedCopy.prepareDownload c.config.transfer c.entry c.tree m.site.ledger c.localFile
    (List.range c.tree.leafCount) with e | ⟨f, j⟩
  · exact ⟨[], rfl⟩
  · exact ⟨[([], j.queue.length)], rfl⟩

/-! ### What time does not take away -/

/-- Verified chunks stay verified, and the source is asked for others only. -/
structure Onward {σ : Type} [RangeSource σ] (t : Tree) (g : Ledger) (x : σ) (g' : Ledger)
    (x' : σ) : Prop where
  keeps : ∀ i, g.state i = .verified → g'.state i = .verified
  asks : Asks (fun r => ∃ i, t.layout.chunkRange? i = some r ∧ g.state i ≠ .verified) x x'

namespace Onward

section

variable {σ : Type} [RangeSource σ] {t : Tree} {g g' g'' : Ledger} {x x' x'' : σ}

theorem of_keeps (h : ∀ i, g.state i = .verified → g'.state i = .verified) (x : σ) :
    Onward t g x g' x := ⟨h, .none⟩

theorem trans (h : Onward t g x g' x') (h' : Onward t g' x' g'' x'') : Onward t g x g'' x'' where
  keeps i hi := h'.keeps i (h.keeps i hi)
  asks := by
    refine h.asks.trans (h'.asks.mono ?_)
    rintro r ⟨i, hr, hi⟩
    exact ⟨i, hr, fun hv => hi (h.keeps i hv)⟩

end

/-- What is added to the log of a source leaves verified chunks out. -/
theorem requests {σ : Type} [RangeSource σ] {t : Tree} {g g' : Ledger} {x x' : Logged σ}
    (h : Onward t g x g' x') : ∃ rs, x'.requests = x.requests ++ rs ∧
      ∀ i r, g.state i = .verified → t.layout.chunkRange? i = some r → r ∉ rs := by
  obtain ⟨rs, hrs, hmem⟩ := h.asks.requests
  refine ⟨rs, hrs, fun i r hv hi hr => ?_⟩
  obtain ⟨j, hj, hnot⟩ := hmem r hr
  rw [Layout.chunkRange?_inj hj hi] at hnot
  exact hnot hv

end Onward

/-! ### While a session lasts -/

namespace Site

variable {σ : Type} {path : Path} {t : Tree} {n : Nat} {s s' : Site σ}

/-- Giving something up saves the ledger at most. -/
structure Rests (path : Path) (t : Tree) (n : Nat) (s s' : Site σ) : Prop where
  housed : s'.Housed path t n
  ledger : s'.ledger = s.ledger
  source : s'.source = s.source
  locks : s'.disk.locks = s.disk.locks
  content : s'.disk.content n = s.disk.content n

theorem Rests.persist (h : s.Rests path t n s') :
    s.Rests path t n s'.persist.2 ∧
      s'.persist.2.disk.content? (statePath path) = some s.ledger.snapshot := by
  obtain ⟨hhoused, hlocks, hcontent, hside⟩ := h.housed.persist
  rw [h.ledger] at hside
  exact ⟨⟨hhoused, h.ledger, h.source, hlocks.trans h.locks, hcontent.trans h.content⟩, hside⟩

theorem Rests.close (h : s.Rests path t n s') (f : Fetcher) : s.Rests path t n (f.close s') := by
  unfold Fetcher.close
  split
  · exact h.persist.1
  · exact h

theorem Rests.foldl_close (h : s.Rests path t n s') (l : List Fetcher) :
    s.Rests path t n (l.foldl (fun s f => f.close s) s') := by
  induction l generalizing s' with
  | nil => exact h
  | cons f rest ih => exact ih (h.close f)

end Site

open Cache (dataFile atFile enter leave visit visits)

namespace Session

variable {σ : Type} [RangeSource σ] {path : Path} {t : Tree} {n : Nat} {m : Session σ}

/-- A session with the cache at `path`, between two calls: nothing is in flight, the
disk is stocked, the lock is held once, and what is verified has the right bytes. -/
structure Lodged (path : Path) (t : Tree) (n : Nat) (m : Session σ) : Prop where
  fits : Fits t (dataFile path t n) m
  calm : Calm (dataFile path t n) m.site
  housed : m.site.Housed path t n
  sound : SoundOn t (dataFile path t n) (fun _ => True) m.site
  free : n ∉ m.site.disk.locks.erase n

omit [RangeSource σ] in
theorem Lodged.holds (h : m.Lodged path t n) {i : Nat} (hi : m.site.ledger.state i = .verified) :
    Reader.Holds t (dataFile path t n) m.site i :=
  ⟨hi, h.sound i trivial hi⟩

/-- Work that leads on keeps the session lodged. -/
theorem Lodged.of_leads {m' : Session σ} (h : m.Lodged path t n)
    (hfits : Fits t (dataFile path t n) m')
    (hl : Leads t (dataFile path t n) m.site m'.site) : m'.Lodged path t n := by
  obtain ⟨hcalm, c, hrun⟩ := hl h.calm
  obtain ⟨hhoused, hlocks⟩ := hrun.housed rfl h.housed
  refine ⟨hfits, hcalm, hhoused, hrun.sound h.calm.toReady h.sound, ?_⟩
  rw [hlocks]
  exact h.free

/-- Work that leads on takes no verdict away, and asks for what is not verified. -/
theorem Lodged.onward {s' : Site σ} (h : m.Lodged path t n)
    (hl : Leads t (dataFile path t n) m.site s')
    (hm : Site.Minds t (dataFile path t n) m.site s') :
    Onward t m.site.ledger m.site.source s'.ledger s'.source where
  keeps i hi := (Reader.holds_of_leads hl h.calm (h.holds hi)).1
  asks := by
    refine (hm h.calm).mono ?_
    rintro r ⟨i, hr, hnot⟩
    exact ⟨i, hr, fun hi => hnot (h.holds hi)⟩

theorem Lodged.perform (h : m.Lodged path t n) (c : Call) :
    (m.perform t (dataFile path t n) c).Lodged path t n ∧
      Onward t m.site.ledger m.site.source (m.perform t (dataFile path t n) c).site.ledger
        (m.perform t (dataFile path t n) c).site.source := by
  obtain ⟨hfits, hleads⟩ := perform_spec c h.calm h.fits
  exact ⟨h.of_leads hfits hleads, h.onward hleads (perform_minds c h.fits)⟩

theorem Lodged.performAll (h : m.Lodged path t n) (calls : List Call) :
    (performAll t (dataFile path t n) calls m).Lodged path t n ∧
      Onward t m.site.ledger m.site.source
        (performAll t (dataFile path t n) calls m).site.ledger
        (performAll t (dataFile path t n) calls m).site.source := by
  induction calls generalizing m with
  | nil => exact ⟨h, .of_keeps (fun _ hi => hi) _⟩
  | cons c rest ih =>
    obtain ⟨hfirst, honward⟩ := h.perform c
    obtain ⟨hlast, honward'⟩ := ih hfirst
    exact ⟨hlast, honward.trans honward'⟩

theorem performAll_append (file : LocalFile) (calls calls' : List Call) (m : Session σ) :
    performAll t file (calls ++ calls') m =
      performAll t file calls' (performAll t file calls m) := by
  induction calls generalizing m with
  | nil => rfl
  | cons c rest ih => exact ih (m.perform t file c)

end Session

/-! ### Between sessions -/

namespace Remains

variable {σ : Type} {path : Path} {t : Tree} {x : Remains σ} {entry : Entry} {config : Config}

/-- Nothing was ever done, or the files of the cache are there, the ledger of the last
session is in its sidecar, and what it calls verified has the right bytes. -/
inductive Orderly (path : Path) (t : Tree) (x : Remains σ) : Prop
  | vacant (disk : x.disk.Vacant path) (ledger : x.ledger = Ledger.empty t.leafCount)
  | stocked (n : Nat) (disk : x.disk.Stocked path t n) (free : n ∉ x.disk.locks)
      (count : x.ledger.chunkCount = t.leafCount) (idle : x.ledger.inFlight = [])
      (kept : x.disk.content? (statePath path) = some x.ledger.snapshot)
      (good : ∀ i, x.ledger.state i = .verified → t.Matches (x.disk.content n) i)

/-- The cache can be opened, and knows the chunks that the last session knew. -/
theorem Orderly.opens (h : x.Orderly path t) (he : Cache.Describes entry t)
    (hconfig : config.transfer.validate = .ok ()) :
    ∃ n g d, Cache.openAt entry path config x.disk = (.ok (atFile entry path t config n, g), d) ∧
      (∀ i, g.state i = .verified ↔ x.ledger.state i = .verified) ∧
      (enter g d x.source).Lodged path t n := by
  cases h with
  | vacant disk ledger =>
    obtain ⟨n, d, hopen, hstocked, hlocks, hn⟩ := Cache.openAt_vacant disk he hconfig
    have hsame : ∀ i, Ledger.state
        { Ledger.empty t.leafCount with path := some (statePath path) } i = x.ledger.state i :=
      fun i => by rw [ledger]; rfl
    have hhoused : (enter { Ledger.empty t.leafCount with path := some (statePath path) } d
        x.source).site.Housed path t n := ⟨hstocked, rfl, rfl⟩
    refine ⟨n, _, d, hopen, fun i => by rw [hsame], Session.fits_start _, ⟨hhoused.ready rfl, rfl⟩,
      hhoused, fun i _ hi => ?_, ?_⟩
    · exact absurd hi (Ledger.state_empty_ne_verified t.leafCount i)
    · show n ∉ d.locks.erase n
      rw [hlocks, List.erase_cons_head]
      exact hn
  | stocked n disk free count idle kept good =>
    obtain ⟨k, hopen⟩ := Cache.openAt_stocked disk he hconfig free count kept
    have hsame : ∀ i, Ledger.state { x.ledger.landed with path := some (statePath path) } i =
        x.ledger.state i := by
      intro i
      have hidle := Ledger.state_ne_fetching_of_idle idle i
      exact Ledger.state_landed hidle
    have hhoused : (enter { x.ledger.landed with path := some (statePath path) }
        { x.disk with clock := k, locks := n :: x.disk.locks } x.source).site.Housed path t n :=
      ⟨disk.congr k _, rfl, count⟩
    refine ⟨n, _, _, hopen, fun i => by rw [hsame], Session.fits_start _, ⟨hhoused.ready rfl, rfl⟩,
      hhoused, fun i _ hi => ?_, ?_⟩
    · exact good i ((hsame i).symm.trans hi)
    · show n ∉ (n :: x.disk.locks).erase n
      rw [List.erase_cons_head]
      exact free

end Remains

namespace Session

variable {σ : Type} {path : Path} {t : Tree} {n : Nat} {m : Session σ}

/-- Leaving saves the ledger and gives the lock back. -/
theorem Lodged.leave (h : m.Lodged path t n) (entry : Entry) (config : Config) :
    let s := (atFile entry path t config n).leave m
    (⟨s.disk, s.source, s.ledger⟩ : Remains σ).Orderly path t ∧ s.ledger = m.site.ledger ∧
      s.source = m.site.source ∧ s.disk.content? path = some (m.site.disk.content n) := by
  intro s
  have hstart : m.site.Rests path t n m.site := ⟨h.housed, rfl, rfl, rfl, rfl⟩
  obtain ⟨hrest, hside⟩ :=
    (hstart.foldl_close (m.fetchers ++ m.readers.map Reader.fetcher)).persist
  -- Closing the cache saves the ledger and then takes the lock away.
  generalize hs' : (((m.fetchers ++ m.readers.map Reader.fetcher).foldl
    (fun s f => Fetcher.close f s) m.site).persist).2 = s' at hrest hside
  have hs : s = { s' with disk := { s'.disk with locks := s'.disk.locks.erase n } } := by
    rw [← hs']
    rfl
  have hstocked := hrest.housed.stocked.congr s'.disk.clock (s'.disk.locks.erase n)
  have hgood : ∀ i, m.site.ledger.state i = .verified → t.Matches (s'.disk.content n) i := by
    intro i hi
    rw [hrest.content]
    exact (h.holds hi).2
  rw [hs]
  refine ⟨.stocked n hstocked ?_ hrest.housed.chunkCount ?_ ?_ ?_, hrest.ledger, hrest.source, ?_⟩
  · show n ∉ s'.disk.locks.erase n
    rw [hrest.locks]
    exact h.free
  · show s'.ledger.inFlight = []
    rw [hrest.ledger]
    exact h.calm.idle
  · show s'.disk.content? (statePath path) = some s'.ledger.snapshot
    rw [hrest.ledger]
    exact hside
  · show ∀ i, s'.ledger.state i = .verified → t.Matches (s'.disk.content n) i
    rw [hrest.ledger]
    exact hgood
  · show s'.disk.content? path = _
    unfold Disk.content?
    rw [hrest.housed.stocked.data, ← hrest.content]

end Session

namespace Cache

variable {σ : Type} [RangeSource σ] {path : Path} {t : Tree} {x : Remains σ} {entry : Entry}

theorem openAt_of_refused {config : Config} {e : Error} (h : config.transfer.validate = .error e)
    (path : Path) (d : Disk) : openAt entry path config d = (.error e, d) := by
  unfold openAt
  rw [h]

theorem visit_of_opens {v : Visit} {c : Cache} {g : Ledger} {d : Disk}
    (h : openAt entry path v.config x.disk = (.ok (c, g), d)) : visit entry path v x =
      let s := c.leave (Session.performAll c.tree c.localFile v.calls (enter g d x.source))
      ⟨s.disk, s.source, s.ledger⟩ := by
  unfold visit
  rw [h]

/-- One more session leaves things orderly and takes nothing away. -/
theorem visit_onward (h : x.Orderly path t) (he : Describes entry t) (v : Visit) :
    (visit entry path v x).Orderly path t ∧
      Onward t x.ledger x.source (visit entry path v x).ledger (visit entry path v x).source := by
  cases hconfig : v.config.transfer.validate with
  | error e =>
    unfold visit
    rw [openAt_of_refused hconfig]
    exact ⟨h, .of_keeps (fun _ hi => hi) _⟩
  | ok u =>
    obtain ⟨n, g, d, hopen, hknown, hlodged⟩ := h.opens he hconfig
    obtain ⟨hlodged', honward⟩ := hlodged.performAll v.calls
    obtain ⟨horderly, hledger, hsource, -⟩ := hlodged'.leave entry v.config
    have hstart : Onward t x.ledger x.source g x.source :=
      .of_keeps (fun i hi => (hknown i).2 hi) _
    have hend := hstart.trans honward
    rw [← hledger, ← hsource] at hend
    rw [visit_of_opens hopen]
    exact ⟨horderly, hend⟩

/-- So do any number of sessions. -/
theorem visits_onward (h : x.Orderly path t) (he : Describes entry t) (vs : List Visit) :
    (visits entry path vs x).Orderly path t ∧
      Onward t x.ledger x.source (visits entry path vs x).ledger
        (visits entry path vs x).source := by
  induction vs generalizing x with
  | nil => exact ⟨h, .of_keeps (fun _ hi => hi) _⟩
  | cons v rest ih =>
    obtain ⟨h', honward⟩ := visit_onward h he v
    obtain ⟨h'', honward'⟩ := ih h'
    exact ⟨h'', honward.trans honward'⟩

end Cache

/-! ### Downloads -/

theorem prepareDownload_eq_ok {config : TransferConfig} {entry : Entry} {t : Tree}
    {ledger : Ledger} {file : LocalFile} {indices : List Nat} {f : Fetcher} {j : Job}
    (h : prepareDownload config entry t ledger file indices = .ok (f, j)) :
    f.Serves t file ∧ Job.create t.layout ledger indices = .ok j := by
  obtain ⟨-, -, rfl, hj⟩ := prepareDownload_eq_ok_iff.1 h
  exact ⟨⟨rfl, rfl⟩, hj⟩

namespace Job

variable {σ : Type} [RangeSource σ] {t : Tree} {f : Fetcher} {s : Site σ} {j : Job}

/-- As long as nothing has failed, every chunk is verified or in the queue. -/
structure Pursues (t : Tree) (g : Ledger) (j : Job) : Prop where
  stopped : j.stopped = j.failure.isSome
  rest : j.failure = none → ∀ i < t.leafCount, g.state i = .verified ∨ i ∈ j.queue

theorem Pursues.of_keeps {g g' : Ledger} (h : j.Pursues t g)
    (hkeeps : ∀ i, g.state i = .verified → g'.state i = .verified) : j.Pursues t g' :=
  ⟨h.stopped, fun hnone i hi => (h.rest hnone i hi).imp_left (hkeeps i)⟩

/-- A new job for all chunks has the others in its queue. -/
theorem pursues_create {g : Ledger} (h : create t.layout g (List.range t.leafCount) = .ok j) :
    j.Pursues t g := by
  have hin : ∀ i ∈ List.range t.leafCount, i < t.layout.chunkCount :=
    fun i hi => List.mem_range.1 hi
  obtain ⟨j', hj', hqueue, hstop, hfail⟩ := create_of_inside g hin
  rw [h] at hj'
  cases hj'
  refine ⟨by rw [hstop, hfail]; rfl, fun _ i hi => ?_⟩
  rw [hqueue, mem_pending_iff, List.mem_range]
  by_cases hv : g.state i = .verified
  · exact .inl hv
  · exact .inr ⟨hi, hi, hv⟩

theorem Pursues.advance (h : j.Pursues t s.ledger) (hidle : s.ledger.inFlight = []) (n : Nat)
    (f : Fetcher) : (j.advance n f s).1.Pursues t (j.advance n f s).2.2.ledger := by
  cases hfail : j.failure with
  | some e =>
    have hstop := h.stopped
    rw [hfail] at hstop
    rw [advance_of_stopped hstop]
    exact h
  | none =>
    have hstop := h.stopped
    rw [hfail] at hstop
    obtain ⟨tried, left, hafter, -⟩ := advance_course n hstop hfail f s
    refine ⟨hafter.stopped, fun hnone i hi => ?_⟩
    have hcourse := hafter.course
    rw [hnone] at hcourse
    rcases h.rest hfail i hi with hv | hmem
    · exact .inl (hcourse.keeps hv)
    · rw [hafter.split, List.mem_append] at hmem
      rw [hafter.queue]
      have hawait : s.ledger.Awaitable := .inr (Ledger.state_ne_fetching_of_idle hidle)
      exact hmem.imp_left (hcourse.verified hawait i)

end Job

/-- Every chunk of the file under `path` has the digest of its leaf. -/
def Disk.Whole (d : Disk) (path : Path) (t : Tree) : Prop :=
  ∃ b, d.content? path = some b ∧ ∀ i < t.leafCount, t.Matches b i

namespace Session

variable {σ : Type} [RangeSource σ] {path : Path} {t : Tree} {n : Nat} {m : Session σ}

/-- Work that nobody of the session takes part in keeps it lodged. -/
theorem Lodged.work {s' : Site σ} (h : m.Lodged path t n)
    (hl : Leads t (dataFile path t n) m.site s') : ({ m with site := s' }).Lodged path t n := by
  have hreaders := readers_of_leads h.fits h.calm hl
  exact h.of_leads ⟨h.fits.fetchers, hreaders⟩ hl

theorem Lodged.among (turns : List (List Call × Nat)) {f : Fetcher} {j : Job}
    (h : m.Lodged path t n) (hf : f.Serves t (dataFile path t n))
    (hj : j.Pursues t m.site.ledger) :
    (j.among t (dataFile path t n) turns f m).2.2.Lodged path t n ∧
      (j.among t (dataFile path t n) turns f m).2.1.Serves t (dataFile path t n) ∧
      (j.among t (dataFile path t n) turns f m).1.Pursues t
        (j.among t (dataFile path t n) turns f m).2.2.site.ledger := by
  induction turns generalizing j f m with
  | nil => exact ⟨h, hf, hj⟩
  | cons turn rest ih =>
    -- The calls take nothing away from the job, and then the job takes its turn.
    obtain ⟨hcalls, honward⟩ := h.performAll turn.1
    have hj' := (hj.of_keeps honward.keeps).advance hcalls.calm.idle turn.2 f
    obtain ⟨hf', hleads⟩ := Job.advance_leads turn.2 hf j
      (Session.performAll t (dataFile path t n) turn.1 m).site
    exact ih (hcalls.work hleads) hf' hj'

/-- A download that succeeds brings in every chunk. -/
theorem Lodged.downloadAmong {entry : Entry} {config : Config} {turns : List (List Call × Nat)}
    {job : Job} {m' : Session σ} (h : m.Lodged path t n)
    (hd : (atFile entry path t config n).downloadAmong turns m = (.ok job, m'))
    (hsuccess : job.result = some .success) :
    m'.Lodged path t n ∧ ∀ i < t.leafCount, m'.site.ledger.state i = .verified := by
  obtain ⟨f, j, j₁, f₁, m₁, hprepare, hamong, rfl, rfl⟩ := Cache.downloadAmong_eq_ok hd
  obtain ⟨hf, hcreate⟩ := prepareDownload_eq_ok hprepare
  obtain ⟨hlodged, hf', hpursues⟩ := h.among turns hf (Job.pursues_create hcreate)
  rw [show j.among t (dataFile path t n) turns f m = _ from hamong] at hlodged hf' hpursues
  obtain ⟨-, hfinish⟩ := Job.finish_leads hf' j₁ m₁.site
  have hleads := hfinish.trans (Fetcher.close_leads (j₁.finish f₁ m₁.site).2.1 _)
  obtain ⟨-, hresult⟩ := Job.finish_result j₁ f₁ m₁.site
  obtain ⟨hfail, hqueue⟩ := Job.eq_nil_of_success (hresult.symm.trans hsuccess)
  refine ⟨hlodged.work hleads, fun i hi => ?_⟩
  have hv : m₁.site.ledger.state i = .verified := by
    refine (hpursues.rest hfail i hi).resolve_right fun hmem => ?_
    rw [hqueue] at hmem
    exact List.not_mem_nil hmem
  exact (Reader.holds_of_leads hleads hlodged.calm (hlodged.holds hv)).1

omit [RangeSource σ] in
/-- If every chunk is verified, the ledger says so. -/
theorem Lodged.isComplete (h : m.Lodged path t n)
    (hall : ∀ i < t.leafCount, m.site.ledger.state i = .verified) :
    m.site.ledger.isComplete = true := by
  have hcount : m.site.ledger.verifiedCount = m.site.ledger.chunkCount := by
    unfold Ledger.verifiedCount
    rw [h.housed.chunkCount]
    refine (List.countP_eq_length.2 fun i hi => ?_).trans List.length_range
    exact decide_eq_true (hall i (List.mem_range.1 hi))
  unfold Ledger.isComplete
  rw [hcount]
  exact beq_self_eq_true _

omit [RangeSource σ] in
/-- Then the data file is whole, and stays so when the session is over. -/
theorem Lodged.whole (h : m.Lodged path t n)
    (hall : ∀ i < t.leafCount, m.site.ledger.state i = .verified) (entry : Entry)
    (config : Config) : m.site.disk.Whole path t ∧
      ((atFile entry path t config n).leave m).disk.Whole path t := by
  obtain ⟨-, -, -, hcontent⟩ := h.leave entry config
  have hgood : ∀ i < t.leafCount, t.Matches (m.site.disk.content n) i :=
    fun i hi => (h.holds (hall i hi)).2
  refine ⟨⟨_, ?_, hgood⟩, ⟨_, hcontent, hgood⟩⟩
  unfold Disk.content?
  rw [h.housed.stocked.data]

end Session

/-! ### Any number of sessions -/

namespace Cache

variable {σ : Type} [RangeSource σ]

/-- Sessions on one path with one entry, starting with none of the files, on a disk that
does not fail and that nobody else writes to, with a source that may do anything.

The cache can be opened again, and its ledger calls the chunks verified that the last
session ended with. A chunk that is verified at some moment of a session stays so in all
that follows, and the source is never asked for it again. If a download succeeds, with
any other calls while it is under way, the cache is complete from then on, and every
chunk of the data file has the digest of its leaf, also when the session is over. -/
theorem sessions_resume {entry : Entry} {path : Path} {t : Tree} {d₀ : Disk} (x₀ : σ)
    (hvacant : d₀.Vacant path) (hmanifest : entry.manifestTree = some (.ok t))
    (hcheck : entry.check t = .ok ()) (hsize : t.layout.totalSize < Disk.maxOffset)
    (before : List Visit) :
    let x : Remains (Logged σ) :=
      visits entry path before ⟨d₀, ⟨x₀, []⟩, Ledger.empty t.leafCount⟩
    (∀ config : Config, config.transfer.validate = .ok () →
      ∃ c g d, openAt entry path config x.disk = (.ok (c, g), d) ∧ c.tree = t ∧
        ∀ i, g.state i = .verified ↔ x.ledger.state i = .verified) ∧
    ∀ config c g d calls, openAt entry path config x.disk = (.ok (c, g), d) →
      let m := Session.performAll c.tree c.localFile calls (enter g d x.source)
      (∀ later after,
        let x' := visits entry path after (visit entry path ⟨config, calls ++ later⟩ x)
        ∃ rs, x'.source.requests = m.site.source.requests ++ rs ∧
          ∀ i, m.site.ledger.state i = .verified → x'.ledger.state i = .verified ∧
            ∀ r, t.layout.chunkRange? i = some r → r ∉ rs) ∧
      ∀ turns job m', c.downloadAmong turns m = (.ok job, m') → job.result = some .success →
        ∀ later, let m'' := Session.performAll c.tree c.localFile later m'
          m''.site.ledger.isComplete = true ∧ m''.site.disk.Whole path t ∧
            (c.leave m'').disk.Whole path t := by
  intro x
  have he : Describes entry t := ⟨hmanifest, hcheck, hsize⟩
  have hx : x.Orderly path t := (visits_onward (.vacant hvacant rfl) he before).1
  refine ⟨fun config hconfig => ?_, fun config c g d calls hopen => ?_⟩
  · obtain ⟨n, g, d, hopen, hknown, -⟩ := hx.opens he hconfig
    exact ⟨_, g, d, hopen, rfl, hknown⟩
  · cases hconfig : config.transfer.validate with
    | error e =>
      rw [openAt_of_refused hconfig] at hopen
      cases hopen
    | ok u =>
      obtain ⟨n, g', d', hopen', -, hentered⟩ := hx.opens he hconfig
      rw [hopen'] at hopen
      cases hopen
      obtain ⟨hm, -⟩ := hentered.performAll calls
      refine ⟨fun later after => ?_, fun turns job m' hdownload hsuccess later => ?_⟩
      · -- The later calls end this session, and the next ones start from what it leaves.
        obtain ⟨hm', honward⟩ := hm.performAll later
        obtain ⟨horderly, hledger, hsource, -⟩ := hm'.leave entry config
        rw [← hledger, ← hsource] at honward
        obtain ⟨-, honward'⟩ := visits_onward horderly he after
        have hall := honward.trans honward'
        obtain ⟨rs, hrs, hspared⟩ := hall.requests
        have hvisit := visit_of_opens (v := ⟨config, calls ++ later⟩) hopen'
        dsimp only at hvisit
        rw [Session.performAll_append] at hvisit
        rw [hvisit]
        exact ⟨rs, hrs, fun i hi => ⟨hall.keeps i hi, fun r hr => hspared i r hi hr⟩⟩
      · obtain ⟨hm', hall⟩ := hm.downloadAmong hdownload hsuccess
        obtain ⟨hm'', honward⟩ := hm'.performAll later
        have hall'' := fun i hi => honward.keeps i (hall i hi)
        obtain ⟨hwhole, hleft⟩ := hm''.whole hall'' entry config
        exact ⟨hm''.isComplete hall'', hwhole, hleft⟩

/-- The entry of the letters. -/
def lettersEntry : Entry where
  remoteUrl := ""
  totalSize := 8
  manifest := some (.ofTree "" Session.lettersTree)

/-- A session in which the letters are brought in. -/
def fetchLetters : Visit := ⟨{}, [.download {} lettersEntry [0]]⟩

/-- The empty disk, and a remote that has the letters. -/
def beforeLetters : Remains (Logged ScriptedSource) :=
  ⟨{}, ⟨{ bytes := Session.letters }, []⟩, Ledger.empty 1⟩

theorem sessions_resume_letters :
    Disk.Vacant {} "d" ∧ lettersEntry.manifestTree = some (.ok Session.lettersTree) ∧
      lettersEntry.check Session.lettersTree = .ok () ∧
      Session.lettersTree.layout.totalSize < Disk.maxOffset ∧
      -- After a session in which the letters were brought in they are known.
      (∃ c g d, openAt lettersEntry "d" {} (visits lettersEntry "d" [fetchLetters]
        beforeLetters).disk = (.ok (c, g), d) ∧ g.state 0 = .verified) ∧
      -- The first session can bring them in.
      ∃ c g d job m', openAt lettersEntry "d" {} {} = (.ok (c, g), d) ∧
        c.downloadAmong [([], 1)] (enter g d beforeLetters.source) = (.ok job, m') ∧
        job.result = some .success ∧ m'.site.disk.Whole "d" Session.lettersTree := by
  have hvacant : Disk.Vacant {} "d" := ⟨fun _ _ _ => rfl, by decide, rfl, rfl, rfl, (nomatch ·),
    (nomatch ·), (nomatch ·, ·), (nomatch ·, ·, ·), List.forall_mem_nil _⟩
  have hmanifest : lettersEntry.manifestTree = some (.ok Session.lettersTree) :=
    congrArg some (eq_ok_of_toOption (by decide +kernel))
  have hcheck : lettersEntry.check Session.lettersTree = .ok () :=
    eq_ok_of_toOption (by decide +kernel)
  have hsize : Session.lettersTree.layout.totalSize < Disk.maxOffset := by decide
  have hresume := sessions_resume beforeLetters.source.inner hvacant hmanifest hcheck hsize
  refine ⟨hvacant, hmanifest, hcheck, hsize, ?_, ?_⟩
  · have hverified : (visits lettersEntry "d" [fetchLetters] beforeLetters).ledger.state 0 =
      .verified := by decide +kernel
    obtain ⟨c, g, d, hopen, -, hknown⟩ := (hresume [fetchLetters]).1 {} rfl
    exact ⟨c, g, d, hopen, (hknown 0).2 hverified⟩
  · obtain ⟨c, g, d, hopen, -, -⟩ := (hresume []).1 {} rfl
    have hsuccess : (match openAt lettersEntry "d" {} {} with
      | (.error _, _) => none
      | (.ok (c, g), d) => (c.downloadAmong [([], 1)]
          (enter g d beforeLetters.source)).1.toOption.bind Job.result) = some .success := by
      decide +kernel
    rw [show openAt lettersEntry "d" {} {} = _ from hopen] at hsuccess
    dsimp only at hsuccess
    rcases hdownload : c.downloadAmong [([], 1)] (enter g d beforeLetters.source) with ⟨e | job, m'⟩
    · rw [hdownload] at hsuccess
      cases hsuccess
    · rw [hdownload] at hsuccess
      obtain ⟨-, hwhole, -⟩ :=
        ((hresume []).2 {} c g d [] hopen).2 [([], 1)] job m' hdownload hsuccess []
      exact ⟨c, g, d, job, m', hopen, hdownload, hsuccess, hwhole⟩

end Cache
end VerifiedCopy
