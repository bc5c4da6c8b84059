/-
# What the source is asked for

Nobody asks the source for a chunk that is verified and has the right bytes. Each
operation starts where nothing is in flight, and then asks for chunks only that did
not hold when it began (`Site.Minds`): what a fetch asks for is in flight, and a chunk
that holds is never in flight, since it stays verified as long as its bytes are right.

Key definitions: `Site.Minds`, `Fetcher.Mindful`.
Key theorems: `ensure_minds`, `routine_mindful`, `Crew.turns_asks`,
`Session.perform_minds`.
-/
import VerifiedCopy.Proofs.Routine

namespace VerifiedCopy

open Site (Calm Leads Run)

variable {σ : Type} [RangeSource σ] {t : Tree} {file : LocalFile} {f : Fetcher}
  {s s' s'' : Site σ} {i : Nat}

namespace Site

/-- From the calm site `s` on, the source is asked only for chunks that do not hold
there. -/
def Minds (t : Tree) (file : LocalFile) (s s' : Site σ) : Prop :=
  Calm file s →
    Asks (fun r => ∃ i, t.layout.chunkRange? i = some r ∧ ¬ Reader.Holds t file s i)
      s.source s'.source

theorem Minds.of_source (h : s'.source = s.source) : Minds t file s s' := by
  intro _
  rw [h]
  exact .none

theorem Minds.trans (h : Minds t file s s') (hl : Leads t file s s') (h' : Minds t file s' s'') :
    Minds t file s s'' := by
  intro hs
  refine (h hs).trans ((h' (hl hs).1).mono fun r hr => ?_)
  obtain ⟨i, hi, hnot⟩ := hr
  exact ⟨i, hi, fun hh => hnot (Reader.holds_of_leads hl hs hh)⟩

/-- Whoever asks for chunk `i` does nothing if it is verified. -/
theorem Minds.of_asks (hstays : s.ledger.state i = .verified → s' = s)
    (h : Asks (fun r => t.layout.chunkRange? i = some r) s.source s'.source) :
    Minds t file s s' := by
  intro _
  by_cases hv : s.ledger.state i = .verified
  · rw [hstays hv]
    exact .none
  · exact h.mono fun r hr => ⟨i, hr, fun hh => hv hh.1⟩

end Site

open Site (Minds)

/-! ### Fetchers, jobs and readers -/

namespace Fetcher

theorem Serves.layout_eq (h : f.Serves t file) : f.layout = t.layout :=
  congrArg Tree.layout h.1

theorem ensure_minds (h : f.Serves t file) (i : Nat) (s : Site σ) :
    Minds t file s (f.ensure i s).2 := by
  have hensured := f.ensure_cases i s
  rw [← h.1]
  rcases he : f.ensure i s with ⟨r, s'⟩
  rw [he] at hensured
  dsimp only at hensured ⊢
  refine Minds.of_asks (i := i) (fun hv => ?_) ?_
  · cases hensured with
    | outside _ | already _ => rfl
    | joined hf _ _ => rw [hv] at hf; cases hf
    | fetched _ hnew _ _ | failed _ hnew _ _ => exact absurd hv hnew
  · cases hensured with
    | outside _ | already _ => exact .none
    | joined _ ht _ | fetched _ _ ht _ | failed _ _ ht _ => exact ht.source

omit [RangeSource σ] in
theorem recheck_source (f : Fetcher) (i : Nat) (s : Site σ) :
    (f.recheck i s).2.source = s.source := by
  obtain ⟨-, hsource, -⟩ := f.look_spec i s
  rw [recheck_eq_look]
  rcases hl : f.look i s with ⟨_ | _, s'⟩
  · rw [hl] at hsource
    exact hsource
  · rw [hl] at hsource
    exact hsource

omit [RangeSource σ] in
theorem close_source (f : Fetcher) (s : Site σ) : (f.close s).source = s.source := by
  unfold close
  split <;> rfl

theorem trial_leads (h : f.Serves t file) (i : Nat) (s : Site σ) :
    (f.trial i s).2.1.Serves t file ∧ Leads t file s (f.trial i s).2.2 := by
  have hensure := ensure_leads h i s
  unfold trial
  rcases he : f.ensure i s with ⟨e | out, s'⟩
  · rw [he] at hensure
    exact ⟨h, hensure⟩
  · rw [he] at hensure
    cases out with
    | alreadyVerified => exact ⟨h, hensure⟩
    | joined => exact ⟨h, hensure⟩
    | fetched n =>
      obtain ⟨hserves, hnote⟩ := noteFetched_leads h s'
      exact ⟨hserves, hensure.trans hnote⟩

/-- Whoever fetches the content goes on doing so, and minds what holds. -/
def Mindful (t : Tree) (file : LocalFile) (f : Fetcher) (s : Site σ) (f' : Fetcher)
    (s' : Site σ) : Prop :=
  f.Serves t file → f'.Serves t file ∧ Leads t file s s' ∧ Minds t file s s'

/-- All that is done with jobs and readers minds what holds. -/
theorem routine_mindful : Routine (σ := σ) (Mindful t file) where
  refl f s h := ⟨h, .refl s, .of_source rfl⟩
  trans h h' hserves := by
    obtain ⟨hserves, hleads, hminds⟩ := h hserves
    obtain ⟨hserves', hleads', hminds'⟩ := h' hserves
    exact ⟨hserves', hleads.trans hleads', hminds.trans hleads hminds'⟩
  trial f i s h := by
    obtain ⟨hserves, hleads⟩ := trial_leads h i s
    have htried := f.trial_spec i s
    have hasks := htried.source
    rw [h.layout_eq] at hasks
    exact ⟨hserves, hleads, .of_asks htried.stays hasks⟩
  flush f s h := by
    obtain ⟨hserves, hleads⟩ := flush_leads h s
    exact ⟨hserves, hleads, .of_source rfl⟩
  recheck f i s h := ⟨h, (recheck_spec h i s).1, .of_source (f.recheck_source i s)⟩
  look f range s h := by
    rw [h.2]
    exact ⟨h, .of_step (.look s range) id, .of_source rfl⟩

end Fetcher

theorem download_minds (config : TransferConfig) (entry : Entry) (indices : List Nat)
    (s : Site σ) : Minds t file s (download config entry t file indices s).2 := by
  unfold download
  split
  · exact .of_source rfl
  · rename_i f j hprepare
    have hserves := serves_of_prepareDownload hprepare
    obtain ⟨-, hleads, hminds⟩ := Fetcher.routine_mindful.run j f s hserves
    exact hminds.trans hleads (.of_source (Fetcher.close_source _ _))

open Fetcher (routine_mindful)

theorem Cursor.read_minds {c : Cursor} (h : c.reader.fetcher.Serves t file) (n : Nat)
    (s : Site σ) : Minds t file s (c.read n s).2.2 := by
  unfold Cursor.read
  dsimp only
  split
  · exact .of_source rfl
  · split
    · exact .of_source rfl
    · rename_i range _
      have hread := (routine_mindful.read c.reader range s h).2.2
      rcases hr : c.reader.read range s with ⟨e | b, r', s'⟩
      · rw [hr] at hread; exact hread
      · rw [hr] at hread; exact hread

/-! ### Workers side by side -/

namespace Stage

variable {st : Stage}

omit [RangeSource σ] in
theorem take_source (f : Fetcher) (i : Nat) (s : Site σ) : (take f i s).2.source = s.source := by
  unfold take
  rcases s.ledger.claim i with ⟨e | c, g⟩
  · rfl
  · cases c with
    | verified | inFlight => rfl
    | owner ticket =>
      dsimp only
      split <;> rfl

/-- A worker asks for the chunk whose ticket it holds. -/
theorem go_asks (f : Fetcher) (h : st.Holds t file s) :
    Asks (fun r => ∃ i, s.ledger.state i = .fetching ∧ t.layout.chunkRange? i = some r)
      s.source (st.go f s).2.2.source := by
  cases st with
  | idle => exact .none
  | asking i r left attempt => exact Asks.none.ask s.disk ⟨i, h.1, h.2⟩ f.config.fetchTimeout
  | judged i r left attempt j =>
    by_cases hgood : ∃ b, j = .good b
    · obtain ⟨b, rfl⟩ := hgood
      have hsource : (f.deliver i r b s).2.source = s.source := by
        unfold Fetcher.deliver
        split <;> rfl
      show Asks _ s.source (f.deliver i r b s).2.source
      rw [hsource]
      exact .none
    · rw [go_judged (fun b hb => hgood ⟨b, hb⟩)]
      exact .none
  | closing i result => cases result <;> exact .none
  | counting =>
    obtain ⟨-, -, hquiet⟩ := f.noteFetched_quiet s
    show Asks _ s.source (f.noteFetched s).2.2.source
    rw [hquiet]
    exact .none
  | joining flight => exact .none

end Stage

namespace Crew

variable {c : Crew σ}

omit [RangeSource σ] in
/-- A turn of a worker leaves the source as it is, or is a move of the worker. -/
theorem work_source {p : σ → Prop} (w : Nat) {move : Fetcher → Stage → Stage × Fetcher × Site σ}
    (hidle : p c.site.source)
    (hmove : ∀ (k : Nat) st f, c.workers[w]? = some (k, st) → p (move f st).2.2.source) :
    p (c.work w move).site.source := by
  unfold work
  split
  · exact hidle
  · rename_i k st hw
    split
    · exact hidle
    · exact hmove k st _ hw

theorem turn_asks (h : c.Sound t file) (turn : Turn) :
    Asks (fun r => ∃ i, c.site.ledger.state i = .fetching ∧ t.layout.chunkRange? i = some r)
      c.site.source (c.turn turn).site.source := by
  cases turn with
  | take w i =>
    refine work_source (p := Asks _ c.site.source) w .none fun k st f _ => ?_
    cases st with
    | idle =>
      dsimp only
      rw [Stage.take_source]
      exact .none
    | asking | judged | closing | counting | joining => exact .none
  | go w =>
    exact work_source (p := Asks _ c.site.source) w .none fun k st f hw =>
      Stage.go_asks f (h.holds w k st hw)
  | save => exact .none

/-- What workers ask for does not hold. -/
theorem turns_asks (turns : List Turn) (h : c.Sound t file) :
    Asks (fun r => ∃ i, t.layout.chunkRange? i = some r ∧ ¬ Reader.Holds t file c.site i)
      c.site.source (c.turns turns).site.source := by
  induction turns generalizing c with
  | nil => exact .none
  | cons turn rest ih =>
    obtain ⟨hturn, labels, hrun⟩ := turn_spec h turn
    have hfirst := (turn_asks h turn).mono (Q := fun r => ∃ i,
      t.layout.chunkRange? i = some r ∧ ¬ Reader.Holds t file c.site i) ?_
    · refine hfirst.trans ((ih hturn).mono fun r hr => ?_)
      obtain ⟨i, hi, hnot⟩ := hr
      refine ⟨i, hi, fun hh => hnot ?_⟩
      obtain ⟨hv, hm, -⟩ := hrun.stable h.ready hh.1 hh.2
      exact ⟨hv, hm⟩
    · rintro r ⟨i, hfetching, hi⟩
      refine ⟨i, hi, fun hh => ?_⟩
      rw [hh.1] at hfetching
      cases hfetching

end Crew

/-! ### Sessions -/

namespace Session

variable {m : Session σ}

theorem onFetcher_minds (k : Nat) {work : Fetcher → Site σ → Fetcher × Site σ}
    (hm : Fits t file m) (hwork : ∀ f s, f.Serves t file → Minds t file s (work f s).2) :
    Minds t file m.site (m.onFetcher k work).site := by
  unfold onFetcher
  split
  · exact .of_source rfl
  · rename_i f hf
    exact hwork f m.site (hm.fetchers f (List.mem_of_getElem? hf))

theorem onReader_minds (k : Nat) {work : Reader → Site σ → Reader × Site σ} (hm : Fits t file m)
    (hwork : ∀ r s, r.fetcher.Serves t file → Minds t file s (work r s).2) :
    Minds t file m.site (m.onReader k work).site := by
  unfold onReader
  split
  · exact .of_source rfl
  · rename_i r hr
    exact hwork r m.site (hm.readers r (List.mem_of_getElem? hr)).1

theorem perform_minds (c : Call) (hm : Fits t file m) :
    Minds t file m.site (m.perform t file c).site := by
  cases c with
  | openFetcher config =>
    simp only [perform]
    split <;> exact .of_source rfl
  | openReader entry transfer config =>
    simp only [perform]
    split <;> exact .of_source rfl
  | ensure k i => exact onFetcher_minds k hm fun f s h => Fetcher.ensure_minds h i s
  | recheck k i => exact onFetcher_minds k hm fun f s h => .of_source (f.recheck_source i s)
  | download config entry indices => exact download_minds config entry indices m.site
  | advance k j n => exact onFetcher_minds k hm fun f s h => (routine_mindful.advance j n f s h).2.2
  | finish k j => exact onFetcher_minds k hm fun f s h => (routine_mindful.finish j f s h).2.2
  | crew ks turns =>
    simp only [perform]
    split
    · exact fun hs => Crew.turns_asks turns (Crew.sound_start hs hm.fetchers ks)
    · exact .of_source rfl
  | read k range => exact onReader_minds k hm fun r s h => (routine_mindful.read r range s h).2.2
  | prebuffer k range => exact onReader_minds k hm fun r s h =>
    (routine_mindful.prebuffer r range s h).2.2
  | cursorRead k position n =>
    exact onReader_minds k hm fun r s h => Cursor.read_minds (c := ⟨r, position⟩) h n s
  | readRange k range => exact onReader_minds k hm fun r s h =>
    (routine_mindful.readRange r range s h).2.2
  | prefetch k j n => exact onReader_minds k hm fun r s h =>
    (routine_mindful.advance j n r.fetcher s h).2.2
  | settle k j => exact onReader_minds k hm fun r s h =>
    (routine_mindful.finish j r.fetcher s h).2.2

end Session
end VerifiedCopy
