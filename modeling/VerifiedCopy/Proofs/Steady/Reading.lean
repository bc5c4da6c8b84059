/-
# Reads on a steady site

On a steady site every chunk has something promised (`Site.Promises`): its bytes, if it is
verified and right, and else the forecast of its fetch. Whatever is gained on the way keeps
the promises (`Promises.gains`), and a reader that can trust the verdicts it does not check
keeps them too: it makes sure of a chunk exactly if bytes are promised for it, and fails
with the promised failure otherwise (`ensureChunk_steady`).

So what a read gives out is settled by the promises: the first failure among the chunks of
its range, or the promised bytes (`Reader.Answered`), of which there is only one
(`Answered.unique`).

Key definitions: `Site.Promises`, `Reader.Wary`, `Reader.Placed`, `Reader.Answered`.
Key theorems: `ensureChunk_steady`, `ensureChunks_steady`, `readRange_steady`,
`Answered.unique`.
-/
import VerifiedCopy.Proofs.Steady

namespace VerifiedCopy

open Reader (Holds)
open Site (Calm Covered Gains Prepared Ready Run SoundOn Steady)

variable {σ : Type} [RangeSource σ] {t : Tree} {file : LocalFile} {f f₀ : Fetcher}
  {answer : ByteRange → Except FetchError Bytes} {written : Nat → Bytes → Except Error Unit}
  {promised : Nat → Except Error Bytes} {r r' : Reader} {s s' : Site σ} {i : Nat}
  {range : ByteRange}

/-! ### Promises -/

namespace Site

/-- What is promised of each chunk: the bytes of one that is verified and right, and what is
foretold of any other. -/
structure Promises (t : Tree) (file : LocalFile) (foretold promised : Nat → Except Error Bytes)
    (s : Site σ) : Prop where
  held : ∀ i, Holds t file s i → promised i = .ok (t.layout.cut (file.content s.disk) i)
  free : ∀ i, ¬ Holds t file s i → promised i = foretold i

omit [RangeSource σ] in
/-- Something is promised on every site. -/
theorem exists_promises (foretold : Nat → Except Error Bytes) (s : Site σ) :
    ∃ promised, Promises t file foretold promised s := by
  classical
  refine ⟨fun i => if Holds t file s i then .ok (t.layout.cut (file.content s.disk) i)
    else foretold i, fun i hi => if_pos hi, fun i hi => if_neg hi⟩

/-- What is gained keeps the promises. -/
theorem Promises.gains {foretold : Nat → Except Error Bytes}
    (h : Promises t file foretold promised s) (hg : Gains t file foretold s s')
    (hs : Ready file s) : Promises t file foretold promised s' := by
  obtain ⟨c, hrun⟩ := hg.run
  refine ⟨fun i hi => ?_, fun i hi => ?_⟩
  · by_cases hbefore : Holds t file s i
    · obtain ⟨-, -, hsame⟩ := hrun.stable hs hbefore.1 hbefore.2
      rw [h.held i hbefore, Layout.cut_of_sameChunk hsame]
    · rw [h.free i hbefore]
      exact (hg.gained i hi).resolve_left hbefore
  · refine h.free i fun hbefore => hi ?_
    obtain ⟨hv, hm, -⟩ := hrun.stable hs hbefore.1 hbefore.2
    exact ⟨hv, hm⟩

end Site

/-! ### Checking and saving on a steady site -/

namespace Fetcher

/-- Checking a chunk again does not fail, calls no other chunk verified and changes no byte. -/
theorem recheck_quiet (hf : f.Serves t file) (h : Steady t file answer written s)
    (hs : Covered t file s) (i : Nat) :
    (∃ ok, (f.recheck i s).1 = .ok ok) ∧
      (∀ j, (f.recheck i s).2.ledger.state j = .verified → s.ledger.state j = .verified) ∧
      file.content (f.recheck i s).2.disk = file.content s.disk := by
  obtain ⟨rfl, rfl⟩ := hf
  unfold recheck
  split
  · exact ⟨⟨true, rfl⟩, fun _ => id, rfl⟩
  · rename_i hv
    have hv := Classical.not_not.1 hv
    split
    · exact ⟨⟨true, rfl⟩, fun _ => id, rfl⟩
    · rename_i r hr
      have hread := h.reads [] s (.nil s) r (Layout.stop_le_of_range hr) (hs i hv r hr)
      have hcontent := (Site.sameFiles_readRange f.localFile r s.disk).content_eq f.localFile
      rcases hd : f.localFile.readRange r s.disk with ⟨e | b, d⟩
      · rw [hd] at hread
        cases hread
      · rw [hd] at hcontent
        dsimp only
        split
        · exact ⟨⟨true, rfl⟩, fun _ => id, hcontent⟩
        · refine ⟨⟨false, rfl⟩, fun j hj => ?_, hcontent⟩
          have hdemote : (s.ledger.demote i).2.state j = .verified := hj
          rw [Ledger.state_demote hv] at hdemote
          by_cases hji : j = i
          · rw [hji, hv]
          · rwa [if_neg hji] at hdemote

theorem noteFetched_steady (h : Steady t file answer written s) :
    (f.noteFetched s).1 = .ok () := by
  unfold noteFetched
  split
  · exact h.saves [] s (.nil s)
  · rfl

end Fetcher

/-! ### A reader at its place -/

namespace Reader

omit [RangeSource σ] in
/-- A reader that has not been used yet. -/
theorem eq_of_create {entry : Entry} {g : Ledger} {transfer : TransferConfig}
    {config : ReaderConfig} (h : Reader.create entry t g file transfer config = .ok r) :
    r = { fetcher := { tree := t, localFile := file, config := transfer }, config } ∧
      g.chunkCount = t.leafCount := by
  obtain ⟨-, hfits, hmade⟩ := create_eq_ok_iff.1 h
  exact ⟨hmade, hfits.chunks⟩

/-- The verified chunks are right, or the reader checks them again when it comes to them, and those
that it has come to are right. -/
def Wary (t : Tree) (file : LocalFile) (r : Reader) (s : Site σ) : Prop :=
  SoundOn t file (fun i => i < t.leafCount) s ∨
    r.config.recheckLocal = true ∧ Sound t file r s

theorem Wary.moves (h : Wary t file r s) (hm : Moves t file r s r' s') (hs : Calm file s) :
    Wary t file r' s' := by
  obtain ⟨-, c, hrun⟩ := hm.leads hs
  refine h.imp (hrun.sound hs.toReady) fun ⟨hre, hsound⟩ => ?_
  exact ⟨hm.config ▸ hre, hm.sound hre hs hsound⟩

/-- A wary reader on a prepared site where something is promised. -/
structure Placed (t : Tree) (file : LocalFile) (answer : ByteRange → Except FetchError Bytes)
    (written : Nat → Bytes → Except Error Unit) (f₀ : Fetcher)
    (promised : Nat → Except Error Bytes) (r : Reader) (s : Site σ) : Prop extends
    Prepared t file answer written s where
  twin : f₀.Twin r.fetcher
  wary : Wary t file r s
  promises : Site.Promises t file (f₀.forecast answer written) promised s

/-- A reader keeps its place where nothing is gained but what is foretold. -/
theorem Placed.moves (h : Placed t file answer written f₀ promised r s)
    (hm : Moves t file r s r' s') (htwin : f₀.Twin r'.fetcher)
    (hg : Gains t file (f₀.forecast answer written) s s') :
    Placed t file answer written f₀ promised r' s' where
  toPrepared := h.toPrepared.of_run hg.run (hm.leads h.toCalm).1
  twin := htwin
  wary := h.wary.moves hm h.toCalm
  promises := h.promises.gains hg h.toReady

/-- After its first look at a chunk a reader can trust the verdict on it. -/
theorem recheckOnce_steady (hf₀ : f₀.Serves t file)
    (h : Placed t file answer written f₀ promised r s) (hi : i < t.leafCount) :
    ∃ r' s', r.recheckOnce i s = (.ok (), r', s') ∧
      Placed t file answer written f₀ promised r' s' ∧ SoundOn t file (· = i) s' := by
  have hf := h.twin.serves_iff.2 hf₀
  obtain ⟨hmoves, -⟩ := recheckOnce_spec hf i s
  unfold recheckOnce at hmoves ⊢
  split at hmoves
  · rename_i hcond
    rw [if_pos hcond]
    obtain ⟨⟨ok, hok⟩, hstate, hcontent⟩ := Fetcher.recheck_quiet hf h.steady h.covered i
    obtain ⟨hleads, hgood⟩ := Fetcher.recheck_spec hf i s
    obtain ⟨-, hrun⟩ := hleads h.toCalm
    rcases hr : r.fetcher.recheck i s with ⟨e | ok', s'⟩
    · rw [hr] at hok
      cases hok
    · rw [hr] at hmoves hstate hcontent hrun hgood
      refine ⟨_, s', rfl, h.moves hmoves h.twin (.of_quiet hrun hstate hcontent), ?_⟩
      rintro j rfl hv
      exact hgood ok' rfl hi hv
  · rename_i hcond
    rw [if_neg hcond]
    refine ⟨r, s, rfl, h, ?_⟩
    rintro j rfl hv
    rcases h.wary with hsound | ⟨hre, hsound⟩
    · exact hsound j hi hv
    · -- The reader has come to the chunk before.
      rw [hre, Bool.true_and, Bool.not_eq_true', Bool.not_eq_false, List.contains_iff_mem] at hcond
      exact hsound j ⟨hcond, hi⟩ hv

/-- **Promises are kept.** A reader makes sure of a chunk if bytes are promised for it, and else it
fails as promised. -/
theorem ensureChunk_steady (hf₀ : f₀.Serves t file)
    (h : Placed t file answer written f₀ promised r s) (hi : i < t.leafCount) :
    (r.ensureChunk i s).1 = (promised i).map (fun _ => ()) ∧
      Placed t file answer written f₀ promised (r.ensureChunk i s).2.1 (r.ensureChunk i s).2.2 ∧
      ((r.ensureChunk i s).1 = .ok () → Holds t file (r.ensureChunk i s).2.2 i) := by
  obtain ⟨r', s', hcheck, h', hsound⟩ := recheckOnce_steady hf₀ h hi
  have hf := h'.twin.serves_iff.2 hf₀
  unfold ensureChunk
  rw [hcheck]
  dsimp only
  by_cases hv : s'.ledger.state i = .verified
  · have hholds : Holds t file s' i := ⟨hv, hsound i rfl hv⟩
    rw [Fetcher.ensure_verified hv, h'.promises.held i hholds]
    exact ⟨rfl, h', fun _ => hholds⟩
  · obtain ⟨hs'', hgains⟩ := Fetcher.ensure_gains hf i h'.toPrepared
    have hpromised := h'.promises.free i fun hholds => hv hholds.1
    have hforetold := Fetcher.ensure_forecast hf h'.toCalm h'.steady h'.count hi hv
    obtain ⟨-, ⟨c, hrun⟩, hverified⟩ := Fetcher.ensure_spec hf i h'.toCalm
    have hright := hrun.sound h'.toReady hsound
    rw [h'.twin.forecast] at hgains hforetold
    rw [← hpromised] at hforetold
    have hmoves : Moves t file r' s' r' (r'.fetcher.ensure i s').2 :=
      .of_leads hf rfl rfl (Fetcher.ensure_leads hf i s')
    have hplaced := h'.moves hmoves h'.twin hgains
    have hresult := hforetold.result
    rcases he : r'.fetcher.ensure i s' with ⟨e | out, s''⟩
    · rw [he] at hplaced hresult
      exact ⟨hresult, hplaced, fun h => by cases h⟩
    · rw [he] at hplaced hresult hverified hright
      have hv'' := hverified out rfl
      have hholds : Holds t file s'' i := ⟨hv'', hright i rfl hv''⟩
      cases out with
      | alreadyVerified => exact ⟨hresult, hplaced, fun _ => hholds⟩
      | joined => exact ⟨hresult, hplaced, fun _ => hholds⟩
      | fetched n =>
        obtain ⟨hserves, hleads⟩ := Fetcher.noteFetched_leads hf s''
        have hnoted : Gains t file (f₀.forecast answer written) s''
            (r'.fetcher.noteFetched s'').2.2 :=
          (Fetcher.noteFetched_gains hf hplaced.toPrepared).2
        have hnote : Moves t file r' s'' { r' with fetcher := (r'.fetcher.noteFetched s'').2.1 }
            (r'.fetcher.noteFetched s'').2.2 := .of_leads hserves rfl rfl hleads
        have hok := Fetcher.noteFetched_steady (f := r'.fetcher) hplaced.steady
        dsimp only
        rw [hok]
        exact ⟨hresult, hplaced.moves hnote (h'.twin.noteFetched s'') hnoted,
          fun _ => holds_of_leads hleads hplaced.toCalm hholds⟩

/-- The first of the failures that are promised for some chunks, if there is one. -/
def allowed (promised : Nat → Except Error Bytes) : List Nat → Except Error Unit
  | [] => .ok ()
  | i :: rest =>
    match promised i with
    | .error e => .error e
    | .ok _ => allowed promised rest

/-- A reader makes sure of some chunks up to the first failure that is promised. -/
theorem ensureChunks_steady (hf₀ : f₀.Serves t file) (l : List Nat)
    (h : Placed t file answer written f₀ promised r s) (hl : ∀ i ∈ l, i < t.leafCount) :
    (ensureChunks l r s).1 = allowed promised l ∧
      Placed t file answer written f₀ promised (ensureChunks l r s).2.1 (ensureChunks l r s).2.2 ∧
      ((ensureChunks l r s).1 = .ok () → ∀ i ∈ l, Holds t file (ensureChunks l r s).2.2 i) := by
  induction l generalizing r s with
  | nil => exact ⟨rfl, h, fun _ => List.forall_mem_nil _⟩
  | cons i rest ih =>
    rw [List.forall_mem_cons] at hl
    obtain ⟨hresult, hplaced, hholds⟩ := ensureChunk_steady hf₀ h hl.1
    unfold ensureChunks allowed
    rcases he : r.ensureChunk i s with ⟨e | u, r', s'⟩
    · rw [he] at hresult hplaced
      cases hp : promised i with
      | error e' =>
        rw [hp] at hresult
        cases hresult
        exact ⟨rfl, hplaced, fun h => by cases h⟩
      | ok b =>
        rw [hp] at hresult
        cases hresult
    · rw [he] at hresult hplaced hholds
      obtain ⟨hresult', hplaced', hholds'⟩ := ih hplaced hl.2
      cases hp : promised i with
      | error e' =>
        rw [hp] at hresult
        cases hresult
      | ok b =>
        refine ⟨hresult', hplaced', fun hok => List.forall_mem_cons.2 ⟨?_, hholds' hok⟩⟩
        have hleads := (ensureChunks_spec rest (hplaced.twin.serves_iff.2 hf₀) s').1.leads
        exact holds_of_leads hleads hplaced.toCalm (hholds rfl)

/-- What a read comes to, given what is promised of the chunks. -/
inductive Answered (t : Tree) (promised : Nat → Except Error Bytes) (range : ByteRange) :
    Except Error Bytes → Prop
  /-- The range goes past the end. -/
  | outside (h : t.layout.totalSize < range.stop) :
      Answered t promised range (.error (.rangeOutOfBounds range.stop t.layout.totalSize))
  /-- The first failure among the chunks of the range. -/
  | failed {e : Error} (h : range.stop ≤ t.layout.totalSize)
      (he : allowed promised (t.layout.overlapping range) = .error e) :
      Answered t promised range (.error e)
  /-- The bytes of the range, in any content with the promised chunks. -/
  | given {content : Bytes} (h : range.stop ≤ t.layout.totalSize)
      (hc : ∀ i ∈ t.layout.overlapping range, promised i = .ok (t.layout.cut content i)) :
      Answered t promised range (.ok (content.slice range.start range.size))

omit [RangeSource σ] in
/-- Chunks that bytes are promised for are allowed. -/
theorem allowed_of_ok {l : List Nat} (h : ∀ i ∈ l, ∃ b, promised i = .ok b) :
    allowed promised l = .ok () := by
  induction l with
  | nil => rfl
  | cons i rest ih =>
    rw [List.forall_mem_cons] at h
    obtain ⟨⟨b, hb⟩, hrest⟩ := h
    unfold allowed
    rw [hb]
    exact ih hrest

/-- There is one thing only that a read can come to. -/
theorem Answered.unique {res res' : Except Error Bytes} (h : Answered t promised range res)
    (h' : Answered t promised range res') : res = res' := by
  cases h with
  | outside hout =>
    cases h' with
    | outside => rfl
    | failed hin | given hin => omega
  | failed hin he =>
    cases h' with
    | outside hout => omega
    | failed _ he' => rw [he] at he'; cases he'; rfl
    | given _ hc =>
      rw [allowed_of_ok fun i hi => ⟨_, hc i hi⟩] at he
      cases he
  | given hin hc =>
    cases h' with
    | outside hout => omega
    | failed _ he =>
      rw [allowed_of_ok fun i hi => ⟨_, hc i hi⟩] at he
      cases he
    | given _ hc' =>
      refine congrArg Except.ok (Layout.slice_of_cut hin fun i hi => ?_)
      exact Except.ok.inj ((hc i hi).symm.trans (hc' i hi))

/-- The bytes of a range come to what is promised. -/
theorem fill_steady (hf₀ : f₀.Serves t file) (h : Placed t file answer written f₀ promised r s)
    (hne : range.start < range.stop) (hinside : range.stop ≤ t.layout.totalSize) :
    Answered t promised range (r.fill range s).1 ∧
      Placed t file answer written f₀ promised (r.fill range s).2.1 (r.fill range s).2.2 := by
  have hf := h.twin.serves_iff.2 hf₀
  obtain ⟨hresult, hplaced, hholds⟩ := ensureChunks_steady hf₀ (t.layout.overlapping range) h
    fun i hi => Layout.lt_of_mem_overlapping hi
  unfold fill
  rw [hf.layout_eq]
  rcases he : ensureChunks (t.layout.overlapping range) r s with ⟨e | u, r', s'⟩
  · rw [he] at hresult hplaced
    exact ⟨.failed hinside hresult.symm, hplaced⟩
  · rw [he] at hplaced hholds
    have hf' := hplaced.twin.serves_iff.2 hf₀
    have hthere : range.stop ≤ (file.content s'.disk).length :=
      Layout.stop_le_of_inside hne hinside fun i hi => Site.inside_of_matches (hholds rfl i hi).2
    have hread := hplaced.steady.reads [] s' (.nil s') range hinside hthere
    have hcontent := (Site.sameFiles_readRange file range s'.disk).content_eq file
    have hlook : Site.Step t file s' [] { s' with disk := (file.readRange range s'.disk).2 } :=
      .look s' range
    dsimp only
    rw [hf'.2, hread]
    refine ⟨.given hinside fun i hi => hplaced.promises.held i (hholds rfl i hi), ?_⟩
    exact hplaced.moves (.of_leads hf' rfl rfl (.of_step hlook id)) hplaced.twin
      (.of_quiet ⟨_, .single hlook⟩ (fun _ => id) hcontent)

/-- **Reads keep promises.** A read comes to what is promised, whatever was done before. -/
theorem readRange_steady (hf₀ : f₀.Serves t file)
    (h : Placed t file answer written f₀ promised r s) (range : ByteRange) :
    Answered t promised range ((r.readRange range s).1.map (·.1)) ∧
      Placed t file answer written f₀ promised (r.readRange range s).2.1
        (r.readRange range s).2.2 := by
  have hf := h.twin.serves_iff.2 hf₀
  have hsize : r.size = t.layout.totalSize := congrArg Layout.totalSize hf.layout_eq
  unfold readRange checkBounds
  rw [hsize]
  by_cases hout : t.layout.totalSize < range.stop
  · rw [if_pos hout]
    exact ⟨.outside hout, h⟩
  · rw [if_neg hout]
    have hinside := Nat.le_of_not_lt hout
    dsimp only
    split
    · rename_i hempty
      have hzero := ByteRange.isEmpty_iff.1 hempty
      refine ⟨?_, h⟩
      have hnothing : Answered t promised range
          (.ok ((file.content s.disk).slice range.start range.size)) := by
        refine .given hinside fun i hi => ?_
        rw [Layout.overlapping_of_empty _ hempty] at hi
        exact absurd hi List.not_mem_nil
      rw [hzero, Bytes.slice_zero] at hnothing
      exact hnothing
    · rename_i hempty
      have hne := ByteRange.isEmpty_eq_false_iff.1 (Bool.eq_false_iff.2 hempty)
      obtain ⟨hanswered, hplaced⟩ := fill_steady hf₀ h hne hinside
      rcases hfill : r.fill range s with ⟨e | b, r', s'⟩
      · rw [hfill] at hanswered hplaced
        exact ⟨hanswered, hplaced⟩
      · rw [hfill] at hanswered hplaced
        obtain ⟨hfetcher, hconfig, hchecked⟩ := noteRead_fetcher r' range s'.ledger
        have htwin : f₀.Twin (r'.noteRead range s'.ledger).2.fetcher := hfetcher ▸ hplaced.twin
        exact ⟨hanswered, hplaced.moves (.of_leads (htwin.serves_iff.2 hf₀) hconfig hchecked
          (.refl s')) htwin (.refl s')⟩

/-- Reading ahead keeps the reader at its place. -/
theorem readAhead_steady (hf₀ : f₀.Serves t file)
    (h : Placed t file answer written f₀ promised r s) (window : List Nat) :
    Placed t file answer written f₀ promised (r.readAhead window s).1
      (r.readAhead window s).2 := by
  obtain ⟨htwin, -, hgains⟩ :=
    (Fetcher.proceeds_routine hf₀).readAhead r window s h.twin h.toPrepared
  exact h.moves (readAhead_moves (h.twin.serves_iff.2 hf₀) window s) htwin hgains

theorem read_steady (hf₀ : f₀.Serves t file)
    (h : Placed t file answer written f₀ promised r s) (range : ByteRange) :
    Answered t promised range (r.read range s).1 ∧
      Placed t file answer written f₀ promised (r.read range s).2.1 (r.read range s).2.2 := by
  obtain ⟨hanswered, hplaced⟩ := readRange_steady hf₀ h range
  unfold read
  rcases hr : r.readRange range s with ⟨e | ⟨b, window⟩, r', s'⟩
  · rw [hr] at hanswered hplaced
    exact ⟨hanswered, hplaced⟩
  · rw [hr] at hanswered hplaced
    exact ⟨hanswered, readAhead_steady hf₀ hplaced window⟩

/-- Bringing chunks in beforehand keeps the reader at its place. -/
theorem prebuffer_steady (hf₀ : f₀.Serves t file)
    (h : Placed t file answer written f₀ promised r s) (range : ByteRange) :
    Placed t file answer written f₀ promised (r.prebuffer range s).2.1
      (r.prebuffer range s).2.2 := by
  obtain ⟨htwin, -, hgains⟩ :=
    (Fetcher.proceeds_routine hf₀).prebuffer r range s h.twin h.toPrepared
  exact h.moves (prebuffer_moves (h.twin.serves_iff.2 hf₀) range s) htwin hgains

end Reader
end VerifiedCopy
