/-
# Fetchers and jobs work in steps

Every operation of a fetcher or a job on a site where nothing is in flight is a
run of steps, and afterwards nothing is in flight again (`Leads`). An attempt to
fetch a chunk keeps the chunk in flight until its ticket is used up, and its
bytes are right if the attempt succeeds (`attempts_run`); so a chunk is verified
after a call to `ensure` that succeeds (`ensure_spec`).

Key definitions: `Site.Calm`, `Site.Leads`, `Fetcher.Serves`, `Fits`.
Key theorems: `ensure_spec`, `recheck_spec`, `Job.run_leads`, `Fetcher.create_eq_ok_iff`,
`download_leads`.
-/
import VerifiedCopy.Job
import VerifiedCopy.Proofs.Results
import VerifiedCopy.Proofs.Steps

namespace VerifiedCopy

variable {σ : Type} {t : Tree} {file : LocalFile}

namespace Site

/-- A ready site on which nothing is in flight. -/
structure Calm (file : LocalFile) (s : Site σ) : Prop extends Ready file s where
  idle : s.ledger.inFlight = []

variable [RangeSource σ]

/-- From a calm site a run leads to the second site, which is calm again. -/
def Leads (t : Tree) (file : LocalFile) (s s' : Site σ) : Prop :=
  Calm file s → Calm file s' ∧ ∃ c, Run t file s c s'

variable {s s' s'' : Site σ}

theorem Leads.refl (s : Site σ) : Leads t file s s :=
  fun h => ⟨h, [], .nil s⟩

theorem Leads.trans (h : Leads t file s s') (h' : Leads t file s' s'') : Leads t file s s'' := by
  intro hs
  obtain ⟨hs', c, hc⟩ := h hs
  obtain ⟨hs'', c', hc'⟩ := h' hs'
  exact ⟨hs'', c ++ c', hc.trans hc'⟩

theorem Leads.of_step {c : List (Nat × ChunkState)} (h : Step t file s c s')
    (hidle : s.ledger.inFlight = [] → s'.ledger.inFlight = []) : Leads t file s s' :=
  fun hs => ⟨⟨h.ready hs.toReady, hidle hs.idle⟩, c, .single h⟩

theorem leads_persist (s : Site σ) : Leads t file s s.persist.2 :=
  .of_step (.persist s) id

end Site

namespace Fetcher

variable {f : Fetcher} {i : Nat}

/-- A fetcher of the content of `t` for the local file. -/
def Serves (f : Fetcher) (t : Tree) (file : LocalFile) : Prop :=
  f.tree = t ∧ f.localFile = file

open Site (Ready Calm Leads Run Step)

/-! ### Counting and saving -/

section Saving

variable [RangeSource σ]

theorem noteFetched_leads (h : f.Serves t file) (s : Site σ) :
    (f.noteFetched s).2.1.Serves t file ∧ Leads t file s (f.noteFetched s).2.2 := by
  unfold noteFetched
  split
  · exact ⟨h, Site.leads_persist s⟩
  · exact ⟨h, .refl s⟩

theorem flush_leads (h : f.Serves t file) (s : Site σ) :
    (f.flush s).2.1.Serves t file ∧ Leads t file s (f.flush s).2.2 :=
  ⟨h, Site.leads_persist s⟩

theorem close_leads (f : Fetcher) (s : Site σ) : Leads t file s (f.close s) := by
  unfold close
  split
  · exact Site.leads_persist s
  · exact .refl s

end Saving

/-! ### Fetching one chunk -/

theorem judge_eq_good {r : ByteRange} {answer : Except FetchError Bytes} {b : Bytes}
    (h : f.judge i r answer = .good b) : b.length = r.size ∧ f.tree.verifyLeaf i b = true := by
  unfold judge at h
  split at h
  · cases h
  · split at h
    · cases h
    · rename_i hlen
      split at h
      · rename_i hleaf
        cases h
        exact ⟨Classical.not_not.1 hlen, hleaf⟩
      · cases h

variable [RangeSource σ]

/-- What holds of the attempts of a ticket, whatever their number: it holds of the delivery of good
bytes and of the end with a failure, and it holds of a request and a bad verdict before whatever
it holds of. -/
theorem attempts_induction (f : Fetcher) (k : Ticket) (r : ByteRange)
    {motive : Site σ → Except Error Nat × Site σ → Prop}
    (good : ∀ s b,
      f.judge k.index r (RangeSource.fetch s.source s.disk r f.config.fetchTimeout).1 = .good b →
      motive s (f.deliver k.index r b
        { s with source := (RangeSource.fetch s.source s.disk r f.config.fetchTimeout).2 }))
    (bad : ∀ s e, motive s (.error e,
      { s with
        source := (RangeSource.fetch s.source s.disk r f.config.fetchTimeout).2
        ledger := k.recordInvalid s.ledger }))
    (again : ∀ s out,
      motive { s with
        source := (RangeSource.fetch s.source s.disk r f.config.fetchTimeout).2
        ledger := k.recordInvalid s.ledger } out →
      motive s out)
    (left attempt : Nat) (s : Site σ) : motive s (f.attempts k r left attempt s) := by
  induction left generalizing attempt s with
  | zero =>
    unfold attempts
    dsimp only
    split
    · rename_i b hj
      exact good s b hj
    · exact bad s _
  | succ left ih =>
    unfold attempts
    dsimp only
    split
    · rename_i b hj
      exact good s b hj
    · split
      · exact again s _ (ih (attempt + 1) _)
      · exact bad s _

/-- What a fetch of chunk `i` has done while it keeps its ticket: steps that
claim nothing, after which the chunk is still in flight, as are the others. -/
structure Underway (t : Tree) (file : LocalFile) (i : Nat) (s s' : Site σ) : Prop where
  run : Run t file s [] s'
  fetching : s'.ledger.state i = .fetching
  inFlight : s'.ledger.inFlight = s.ledger.inFlight

theorem Underway.trans {s s' s'' : Site σ} (h : Underway t file i s s')
    (h' : Underway t file i s' s'') : Underway t file i s s'' :=
  ⟨h.run.trans h'.run, h'.fetching, h'.inFlight.trans h.inFlight⟩

omit [RangeSource σ] in
/-- Delivering bytes lays some bytes from the front of them over the content, also
if it fails, and leaves the ledger alone. -/
theorem deliver_content (h : f.Serves t file) {s : Site σ} (hs : Ready file s) (i : Nat)
    (r : ByteRange) (b : Bytes) : (f.deliver i r b s).2.ledger = s.ledger ∧
      ∃ n, file.content (f.deliver i r b s).2.disk =
        (file.content s.disk).overlay r.start (b.take n) := by
  obtain ⟨rfl, rfl⟩ := h
  have hcontent := LocalFile.content_writeDurable hs.known r.start b
  unfold deliver
  rcases hw : f.localFile.writeDurable r.start b s.disk with ⟨e | u, d⟩
  · rw [hw] at hcontent; exact ⟨rfl, hcontent⟩
  · rw [hw] at hcontent; exact ⟨rfl, hcontent⟩

/-- The right bytes of a chunk in flight are written; if the write succeeds, the
chunk has them. -/
theorem deliver_run (h : f.Serves t file) {r : ByteRange} {b : Bytes} {s : Site σ}
    (hs : Ready file s) (hi : s.ledger.state i = .fetching) (hr : t.layout.chunkRange? i = some r)
    (hlen : b.length = r.size) (hb : t.verifyLeaf i b = true) :
    Underway t file i s (f.deliver i r b s).2 ∧ (∀ n, (f.deliver i r b s).1 = .ok n →
      t.Matches (file.content (f.deliver i r b s).2.disk) i) := by
  obtain ⟨rfl, rfl⟩ := h
  have hstep : Step f.tree f.localFile s []
      { s with disk := (f.localFile.writeDurable r.start b s.disk).2 } := .write hi hr hlen hb
  unfold deliver
  rcases hw : f.localFile.writeDurable r.start b s.disk with ⟨e | u, d⟩
  · rw [hw] at hstep
    exact ⟨⟨.single hstep, hi, rfl⟩, (nomatch ·, ·)⟩
  · rw [hw] at hstep
    refine ⟨⟨.single hstep, hi, rfl⟩, fun n _ => ?_⟩
    have hcontent := LocalFile.content_writeDurable_of_ok hs.known (Layout.ne_nil_of_range hr hlen)
      (by rw [hw])
    rw [hw] at hcontent
    dsimp only at hcontent ⊢
    rw [hcontent]
    exact Site.matches_overlay_self hr hlen hb

/-- The source is asked for a chunk in flight. -/
theorem underway_ask {s : Site σ} (hi : s.ledger.state i = .fetching) (r : ByteRange)
    (limit : Duration) :
    Underway t file i s { s with source := (RangeSource.fetch s.source s.disk r limit).2 } :=
  ⟨.single (.ask s r limit), hi, rfl⟩

/-- A failed attempt is written down. -/
theorem underway_blame {s : Site σ} (hi : s.ledger.state i = .fetching) :
    Underway t file i s { s with ledger := Ticket.recordInvalid ⟨i⟩ s.ledger } :=
  ⟨.single (.blame hi), (Ledger.state_recordInvalid hi i).trans hi, rfl⟩

/-- The attempts to fetch a chunk keep it in flight, and leave it with the right
bytes if one of them succeeds. -/
theorem attempts_run (h : f.Serves t file) {r : ByteRange} (hr : t.layout.chunkRange? i = some r)
    (left n : Nat) (s : Site σ) (hs : Ready file s) (hi : s.ledger.state i = .fetching) :
    Underway t file i s (f.attempts ⟨i⟩ r left n s).2 ∧
      (∀ m, (f.attempts ⟨i⟩ r left n s).1 = .ok m →
        t.Matches (file.content (f.attempts ⟨i⟩ r left n s).2.disk) i) := by
  refine f.attempts_induction ⟨i⟩ r
    (motive := fun s out => Ready file s → s.ledger.state i = .fetching →
      Underway t file i s out.2 ∧
        ∀ m, out.1 = .ok m → t.Matches (file.content out.2.disk) i)
    ?good ?bad ?again left n s hs hi
  case good =>
    intro s b hj hs hi
    have hask : Underway t file i s _ := underway_ask hi r f.config.fetchTimeout
    obtain ⟨hlen, hb⟩ := judge_eq_good hj
    rw [h.1] at hb
    obtain ⟨hrun, hm⟩ := deliver_run h (hask.run.ready hs) hask.fetching hr hlen hb
    exact ⟨hask.trans hrun, hm⟩
  case bad =>
    intro s e hs hi
    have hask : Underway t file i s _ := underway_ask hi r f.config.fetchTimeout
    exact ⟨hask.trans (underway_blame hask.fetching), fun m hm => by cases hm⟩
  case again =>
    intro s out ih hs hi
    have hask : Underway t file i s _ := underway_ask hi r f.config.fetchTimeout
    have hblame : Underway t file i s _ := hask.trans (underway_blame hask.fetching)
    obtain ⟨hrun, hm⟩ := ih (hblame.run.ready hs) hblame.fetching
    exact ⟨hblame.trans hrun, hm⟩

/-- A chunk without a range cannot be fetched; any other is in flight after the
attempts to fetch it, with the right bytes if they succeed. -/
theorem fetchVerified_run (h : f.Serves t file) {s : Site σ} (hs : Ready file s)
    (hi : s.ledger.state i = .fetching) :
    Underway t file i s (f.fetchVerified ⟨i⟩ s).2 ∧
      (∀ m, (f.fetchVerified ⟨i⟩ s).1 = .ok m →
        t.Matches (file.content (f.fetchVerified ⟨i⟩ s).2.disk) i) := by
  unfold fetchVerified
  split
  · exact ⟨⟨.nil s, hi, rfl⟩, (nomatch ·, ·)⟩
  · rename_i r hr
    have hr' : t.layout.chunkRange? i = some r := by rw [← h.1]; exact hr
    exact attempts_run h hr' f.config.maxRetries.toNat 1 s hs hi

/-- Using up the ticket of the only chunk in flight makes the site calm. -/
theorem calm_settle {s : Site σ} (hs : Ready file s) (hi : s.ledger.state i = .fetching)
    {flight : FlightId} (hidle : s.ledger.inFlight = [(i, flight)]) (o : Outcome)
    (ho : o = .ok () → t.Matches (file.content s.disk) i) :
    Calm file { s with ledger := (s.ledger.settle i o).2 } ∧
      Run t file s [] { s with ledger := (s.ledger.settle i o).2 } := by
  have hstep : Step t file s [] { s with ledger := (s.ledger.settle i o).2 } := .settle hi o ho
  refine ⟨⟨hstep.ready hs, ?_⟩, .single hstep⟩
  show (s.ledger.settle i o).2.inFlight = []
  rw [Ledger.settle_inFlight hi, hidle]
  simp

/-- A ticket that is fulfilled is used up, and the chunk is verified if that
succeeds. -/
theorem fulfil_spec (h : f.Serves t file) {s : Site σ} (hs : Ready file s)
    (hi : s.ledger.state i = .fetching) {flight : FlightId}
    (hidle : s.ledger.inFlight = [(i, flight)]) :
    Calm file (f.fulfil ⟨i⟩ s).2 ∧ Run t file s [] (f.fulfil ⟨i⟩ s).2 ∧
      (∀ out, (f.fulfil ⟨i⟩ s).1 = .ok out → (f.fulfil ⟨i⟩ s).2.ledger.state i = .verified) := by
  obtain ⟨hrun, hm⟩ := fetchVerified_run h hs hi
  unfold fulfil
  rcases hf : f.fetchVerified ⟨i⟩ s with ⟨e | n, s'⟩
  · rw [hf] at hrun
    obtain ⟨hcalm, hsettle⟩ := calm_settle (t := t) (hrun.run.ready hs) hrun.fetching
      (hrun.inFlight.trans hidle) (.error e) (nomatch ·)
    refine ⟨hcalm, hrun.run.trans hsettle, fun out hout => ?_⟩
    have hok := Ledger.settle_of_fetching hrun.fetching (.error e)
    dsimp only [Ticket.failed] at hok hout
    rw [hok] at hout
    cases hout
  · rw [hf] at hrun hm
    obtain ⟨hcalm, hsettle⟩ := calm_settle (hrun.run.ready hs) hrun.fetching
      (hrun.inFlight.trans hidle) (.ok ()) (fun _ => hm n rfl)
    refine ⟨hcalm, hrun.run.trans hsettle, fun out _ => ?_⟩
    exact (Ledger.state_settle hrun.fetching (.ok ()) i).trans (if_pos rfl)

/-- Making sure of a chunk leads from a calm site to a calm site, and the chunk
is verified if that succeeds. -/
theorem ensure_spec (h : f.Serves t file) (i : Nat) {s : Site σ} (hs : Calm file s) :
    Calm file (f.ensure i s).2 ∧ (∃ c, Run t file s c (f.ensure i s).2) ∧
      (∀ out, (f.ensure i s).1 = .ok out → (f.ensure i s).2.ledger.state i = .verified) := by
  unfold ensure
  rcases hc : s.ledger.claim i with ⟨e | c, g⟩
  · exact ⟨hs, ⟨[], .nil s⟩, (nomatch ·, ·)⟩
  · cases c with
    | verified =>
      obtain ⟨rfl, hv⟩ := Ledger.claim_eq_verified hc
      exact ⟨hs, ⟨[], .nil s⟩, fun _ _ => hv⟩
    | inFlight flight =>
      obtain ⟨-, hf⟩ := Ledger.claim_eq_inFlight hc
      unfold Ledger.flight? at hf
      rw [hs.idle] at hf
      cases hf
    | owner ticket =>
      obtain ⟨rfl, hi, -, -, rfl⟩ := Ledger.claim_eq_owner hc
      have hstep : Step t file s _ { s with ledger := s.ledger.depart i } := .claim hc
      have hfetch : (s.ledger.depart i).state i = .fetching :=
        (Ledger.state_depart hi i).trans (if_pos rfl)
      have hidle : (s.ledger.depart i).inFlight = [(i, s.ledger.flights.length)] := by
        rw [← hs.idle]
        rfl
      obtain ⟨hcalm, hrun, hout⟩ := fulfil_spec h (hstep.ready hs.toReady) hfetch hidle
      exact ⟨hcalm, ⟨_, .cons hstep hrun⟩, hout⟩

theorem ensure_leads (h : f.Serves t file) (i : Nat) (s : Site σ) :
    Leads t file s (f.ensure i s).2 := by
  intro hs
  obtain ⟨hcalm, hrun, -⟩ := ensure_spec h i hs
  exact ⟨hcalm, hrun⟩

/-! ### Checking local bytes again -/

omit [RangeSource σ] in
/-- What is read of the local file is what it holds, and reading does not change
it. -/
theorem readRange_eq_ok {r : ByteRange} {d : Disk} {b : Bytes}
    (h : (file.readRange r d).1 = .ok b) :
    b = (file.content d).slice r.start r.size ∧ b.length = r.size := by
  unfold LocalFile.readRange LocalFile.readAt at h
  dsimp only at h
  by_cases hsize : r.size = 0
  · unfold Disk.readAt at h
    rw [if_pos hsize] at h
    cases h
    rw [hsize]
    exact ⟨(Bytes.slice_zero _ _).symm, rfl⟩
  · cases hread : (d.readAt file.handle r.start r.size).1 with
    | error e => rw [hread] at h; cases h
    | ok b' =>
      rw [hread] at h
      cases h
      obtain ⟨id, hn, hb, hlen⟩ := Disk.readAt_eq_ok hread hsize
      rw [LocalFile.content_of_node hn]
      exact ⟨hb, hlen⟩

/-- Checking a chunk again leads from a calm site to a calm site. If no read
fails, the chunk has the right bytes afterwards or is not called verified. -/
theorem recheck_spec (h : f.Serves t file) (i : Nat) (s : Site σ) :
    Leads t file s (f.recheck i s).2 ∧
      (∀ out, (f.recheck i s).1 = .ok out → i < t.leafCount →
        (f.recheck i s).2.ledger.state i = .verified →
        t.Matches (file.content (f.recheck i s).2.disk) i) := by
  obtain ⟨rfl, rfl⟩ := h
  unfold recheck
  split
  · rename_i hv
    exact ⟨.refl s, fun _ _ _ hv' => absurd hv' hv⟩
  · rename_i hv
    have hv := Classical.not_not.1 hv
    split
    · rename_i hr
      exact ⟨.refl s, fun _ _ hi => absurd (Layout.chunkRange?_eq_none_iff.1 hr) (Nat.not_le.2 hi)⟩
    · rename_i r hr
      have hlook : Step f.tree f.localFile s []
          { s with disk := (f.localFile.readRange r s.disk).2 } := .look s r
      have hcontent := (Site.sameFiles_readRange f.localFile r s.disk).content_eq f.localFile
      have hread := @readRange_eq_ok f.localFile r s.disk
      rcases hd : f.localFile.readRange r s.disk with ⟨e | b, d⟩
      · rw [hd] at hlook
        exact ⟨.of_step hlook id, (nomatch ·, ·)⟩
      · rw [hd] at hlook hcontent hread
        obtain ⟨hb, hlen⟩ := hread rfl
        dsimp only at hlook hcontent hb ⊢
        rw [← hcontent] at hb
        have hiff : f.tree.Matches (f.localFile.content d) i ↔ f.tree.verifyLeaf i b = true :=
          Site.matches_iff_of_slice hr hb hlen
        split
        · rename_i hleaf
          exact ⟨.of_step hlook id, fun _ _ _ _ => hiff.2 hleaf⟩
        · rename_i hleaf
          have hdemote : Step f.tree f.localFile { s with disk := d } [] _ :=
            .demote hv fun hm => hleaf (hiff.1 hm)
          refine ⟨(Leads.of_step hlook id).trans (.of_step hdemote fun hidle => ?_),
            fun _ _ _ hv' => ?_⟩
          · exact Ledger.demote_inFlight.trans hidle
          · have hst := (Ledger.state_demote hv i).trans (if_pos rfl)
            rw [hst] at hv'
            cases hv'

end Fetcher

namespace Job

open Site (Leads)

variable [RangeSource σ] {f : Fetcher}

/-! ### Jobs -/

theorem record_leads (h : f.Serves t file) (j : Job) (i : Nat) (r : Except Error ChunkOutcome)
    (s : Site σ) :
    (j.record i r f s).2.1.Serves t file ∧ Leads t file s (j.record i r f s).2.2 := by
  have hnote := Fetcher.noteFetched_leads h s
  unfold record
  split
  · exact ⟨h, .refl s⟩
  · rcases hn : f.noteFetched s with ⟨e | u, f', s'⟩
    · rw [hn] at hnote; exact hnote
    · rw [hn] at hnote; exact hnote
  · exact ⟨h, .refl s⟩

theorem carryOut_leads (h : f.Serves t file) (j : Job) (i : Nat) (s : Site σ) :
    (j.carryOut i f s).2.1.Serves t file ∧ Leads t file s (j.carryOut i f s).2.2 := by
  have hensure := Fetcher.ensure_leads h i s
  obtain ⟨hserves, hrecord⟩ := record_leads h j i (f.ensure i s).1 (f.ensure i s).2
  exact ⟨hserves, hensure.trans hrecord⟩

theorem advance_leads (n : Nat) (h : f.Serves t file) (j : Job) (s : Site σ) :
    (j.advance n f s).2.1.Serves t file ∧ Leads t file s (j.advance n f s).2.2 := by
  induction n generalizing f j s with
  | zero => exact ⟨h, .refl s⟩
  | succ n ih =>
    unfold advance
    split
    · exact ⟨h, .refl s⟩
    · rename_i i j' _
      obtain ⟨hserves, hfirst⟩ := carryOut_leads h j' i s
      obtain ⟨hserves', hrest⟩ := ih hserves (j'.carryOut i f s).1 (j'.carryOut i f s).2.2
      exact ⟨hserves', hfirst.trans hrest⟩

theorem finish_leads (h : f.Serves t file) (j : Job) (s : Site σ) :
    (j.finish f s).2.1.Serves t file ∧ Leads t file s (j.finish f s).2.2 :=
  Fetcher.flush_leads h s

theorem run_leads (h : f.Serves t file) (j : Job) (s : Site σ) :
    (j.run f s).2.1.Serves t file ∧ Leads t file s (j.run f s).2.2 := by
  obtain ⟨hserves, hrun⟩ := advance_leads j.queue.length h j s
  obtain ⟨hserves', hend⟩ := finish_leads hserves (j.advance j.queue.length f s).1
    (j.advance j.queue.length f s).2.2
  exact ⟨hserves', hrun.trans hend⟩

end Job

/-! ### Transfers -/

/-- The settings make sense, and the ledger and the local file are made for the tree. -/
structure Fits (transfer : TransferConfig) (t : Tree) (g : Ledger) (file : LocalFile) : Prop where
  valid : transfer.validate = .ok ()
  chunks : g.chunkCount = t.leafCount
  size : file.totalSize = t.layout.totalSize

theorem Fetcher.create_eq_ok_iff {g : Ledger} {transfer : TransferConfig} {f : Fetcher} :
    Fetcher.create t g file transfer = .ok f ↔
      Fits transfer t g file ∧ f = { tree := t, localFile := file, config := transfer } := by
  unfold Fetcher.create
  simp only [bind_eq_ok_iff, refuse_eq_ok_iff, ne_eq, Decidable.not_not]
  constructor
  · rintro ⟨⟨⟩, hvalid, hchunks, hsize, h⟩
    exact ⟨⟨hvalid, hchunks, hsize⟩, (Except.ok.inj h).symm⟩
  · rintro ⟨hfits, rfl⟩
    exact ⟨(), hfits.valid, hfits.chunks, hfits.size, rfl⟩

/-- A fetcher belongs to the tree and the file that it was made for, and the
ledger has a place for every chunk. -/
theorem Fetcher.create_eq_ok {ledger : Ledger} {config : TransferConfig} {f : Fetcher}
    (h : Fetcher.create t ledger file config = .ok f) :
    f.Serves t file ∧ ledger.chunkCount = t.leafCount ∧ file.totalSize = t.layout.totalSize := by
  obtain ⟨hfits, rfl⟩ := Fetcher.create_eq_ok_iff.1 h
  exact ⟨⟨rfl, rfl⟩, hfits.chunks, hfits.size⟩

/-- A transfer is prepared if the tree is the entry's, the parts fit and there is such a job. -/
theorem prepareDownload_eq_ok_iff {config : TransferConfig} {entry : Entry} {ledger : Ledger}
    {indices : List Nat} {f : Fetcher} {j : Job} :
    prepareDownload config entry t ledger file indices = .ok (f, j) ↔
      entry.check t = .ok () ∧ Fits config t ledger file ∧
        f = { tree := t, localFile := file, config } ∧
        Job.create t.layout ledger indices = .ok j := by
  unfold prepareDownload
  simp only [bind_eq_ok_iff]
  constructor
  · rintro ⟨⟨⟩, -, ⟨⟩, hcheck, f', hf, j', hj, h⟩
    obtain ⟨hfits, rfl⟩ := Fetcher.create_eq_ok_iff.1 hf
    cases h
    exact ⟨hcheck, hfits, rfl, hj⟩
  · rintro ⟨hcheck, hfits, rfl, hj⟩
    exact ⟨(), hfits.valid, (), hcheck, _, Fetcher.create_eq_ok_iff.2 ⟨hfits, rfl⟩, j, hj, rfl⟩

theorem serves_of_prepareDownload {config : TransferConfig} {entry : Entry} {ledger : Ledger}
    {indices : List Nat} {f : Fetcher} {j : Job}
    (h : prepareDownload config entry t ledger file indices = .ok (f, j)) : f.Serves t file := by
  obtain ⟨-, -, rfl, -⟩ := prepareDownload_eq_ok_iff.1 h
  exact ⟨rfl, rfl⟩

open Site (Leads) in
/-- A transfer leads from a calm site to a calm site, refused or not. -/
theorem download_leads [RangeSource σ] (config : TransferConfig) (entry : Entry)
    (indices : List Nat) (s : Site σ) :
    Leads t file s (download config entry t file indices s).2 := by
  unfold download
  split
  · exact .refl s
  · rename_i f j hprepare
    obtain ⟨-, hrun⟩ := Job.run_leads (serves_of_prepareDownload hprepare) j s
    exact hrun.trans (Fetcher.close_leads (j.run f s).2.1 (j.run f s).2.2)

end VerifiedCopy
