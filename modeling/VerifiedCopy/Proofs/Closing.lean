/-
# What is in the sidecar when a reader is given up

A fetcher saves the ledger after so many chunks, at the end of every job, and when it
is given up, if chunks have been counted since. So at any time the sidecar holds an
older ledger, and two things can have happened since it was saved: chunks were
verified, which are counted and bring the next saving on, and verdicts were taken
back, which are not counted (`Filed`). A chunk whose verdict was taken back is
fetched again at once, and counted if that succeeds; if not, the read that came to it
fails.

So no verdict gets lost when the reader is given up, and a verdict that was taken back
can stand in the sidecar only for a chunk of a read that failed
(`sidecar_after_close`). This does happen (`sidecar_after_failed_read`).

Key definitions: `Fetcher.Filed`.
Key theorems: `ensure_filed`, `jobRoutine_settled`, `Reader.ensureChunk_filed`,
`use_filed`, `sidecar_after_close`.
-/
import VerifiedCopy.Proofs.Desk.Snapshots
import VerifiedCopy.Proofs.Routine

namespace VerifiedCopy

variable {σ : Type} {p : Path} {n i : Nat} {D D' U : Nat → Prop}

/-! ### What the sidecar holds -/

namespace Fetcher

variable {f f' : Fetcher} {s s' : Site σ}

/-- The sidecar `p` holds a ledger. What is verified now is so in it, or has been
counted, or is in `U`; what is verified in it is so now, or is in `D`. -/
structure Filed (p : Path) (n : Nat) (U D : Nat → Prop) (f : Fetcher) (s : Site σ) : Prop where
  file : f.localFile.handle.node = .file n
  path : s.ledger.path = some p
  small : s.ledger.chunkCount < UInt32.size
  idle : ∀ i, s.ledger.state i ≠ .fetching
  backed : s.disk.Backed p n
  held : ∃ b g, s.disk.content? p = some b ∧ Ledger.restore b = .ok g ∧
    (∀ i, s.ledger.state i = .verified → 0 < f.sincePersist ∨ g.state i = .verified ∨ U i) ∧
    (∀ i, g.state i = .verified → s.ledger.state i = .verified ∨ D i)

/-- Every verified chunk is accounted for. -/
abbrev Settled (p : Path) (n : Nat) (D : Nat → Prop) (f : Fetcher) (s : Site σ) : Prop :=
  Filed p n (fun _ => False) D f s

theorem Filed.mono (h : Filed p n U D f s)
    (hD : ∀ i, D i → s.ledger.state i ≠ .verified → D' i) : Filed p n U D' f s := by
  obtain ⟨b, g, hb, hg, hnow, hthen⟩ := h.held
  refine ⟨h.file, h.path, h.small, h.idle, h.backed, b, g, hb, hg, hnow, fun i hi => ?_⟩
  by_cases hv : s.ledger.state i = .verified
  · exact .inl hv
  · exact .inr (hD i ((hthen i hi).resolve_left hv) hv)

/-- The ledger is saved, and then the sidecar holds what is verified now. -/
theorem Filed.persist (h : Filed p n U D f s) (hf : f'.localFile = f.localFile) :
    s.persist.1 = .ok () ∧ Settled p n D f' s.persist.2 := by
  obtain ⟨hok, hbacked, hcontent⟩ := h.backed.save (Ledger.length_snapshot_lt h.small)
  rw [Site.persist_of_path h.path]
  have hstate : ∀ i, s.ledger.landed.state i = s.ledger.state i :=
    fun i => Ledger.state_landed (h.idle i)
  refine ⟨hok, hf ▸ h.file, h.path, h.small, h.idle, hbacked, _, _, hcontent,
    Ledger.restore_snapshot h.small, fun i hi => .inr (.inl ?_), fun i hi => .inl ?_⟩
  · rw [hstate]
    exact hi
  · rw [← hstate]
    exact hi

theorem flush_filed (h : Filed p n U D f s) :
    (f.flush s).1 = .ok () ∧ Settled p n D (f.flush s).2.1 (f.flush s).2.2 :=
  h.persist rfl

/-- A chunk is counted, so that it is accounted for. -/
theorem noteFetched_filed (h : Filed p n U D f s) :
    (f.noteFetched s).1 = .ok () ∧ Settled p n D (f.noteFetched s).2.1 (f.noteFetched s).2.2 := by
  unfold noteFetched
  split
  · exact h.persist rfl
  · obtain ⟨b, g, hb, hg, -, hthen⟩ := h.held
    exact ⟨rfl, h.file, h.path, h.small, h.idle, h.backed, b, g, hb, hg,
      fun _ _ => .inl (Nat.succ_pos _), hthen⟩

/-! ### One chunk -/

variable [RangeSource σ]

/-- Work on chunk `i` that brings it to an end. What was verified before and what the
sidecar holds of the others is as it was. -/
theorem Filed.of_touches (h : Settled p n D f s) (ht : Site.Touches f i s s')
    (hidle : s'.ledger.state i ≠ .fetching) (hnew : s.ledger.state i ≠ .verified) :
    Filed p n (fun j => j = i) D f s' := by
  have hstate : ∀ j, j ≠ i → s'.ledger.state j = s.ledger.state j := ht.ledger.state
  obtain ⟨hbacked, hcontent⟩ := h.backed.of_touches h.file ht.disk
  obtain ⟨b, g, hb, hg, hnow, hthen⟩ := h.held
  refine ⟨h.file, ht.ledger.path.trans h.path, ?_, fun j => ?_, hbacked, b, g, hcontent.trans hb,
    hg, fun j hj => ?_, fun j hj => ?_⟩
  · rw [ht.ledger.chunkCount]
    exact h.small
  · by_cases hji : j = i
    · rw [hji]
      exact hidle
    · rw [hstate j hji]
      exact h.idle j
  · by_cases hji : j = i
    · exact .inr (.inr hji)
    · rw [hstate j hji] at hj
      rcases hnow j hj with hcount | hv | hno
      · exact .inl hcount
      · exact .inr (.inl hv)
      · exact hno.elim
  · by_cases hji : j = i
    · rw [hji] at hj ⊢
      exact .inr ((hthen i hj).resolve_left hnew)
    · rw [hstate j hji]
      exact hthen j hj

/-- Only a chunk that is fetched has to be counted. -/
theorem ensure_filed (h : Settled p n D f s) (i : Nat) :
    match f.ensure i s with
    | (.error _, s') => Settled p n D f s'
    | (.ok (.fetched _), s') =>
      s'.ledger.state i = .verified ∧ Filed p n (fun j => j = i) D f s'
    | (.ok _, s') => s'.ledger.state i = .verified ∧ Settled p n D f s' := by
  have hensured := f.ensure_cases i s
  rcases he : f.ensure i s with ⟨r, s'⟩
  rw [he] at hensured
  dsimp only at hensured
  cases hensured with
  | outside _ => exact h
  | already hv => exact ⟨hv, h⟩
  | joined hfetch _ _ => exact absurd hfetch (h.idle i)
  | fetched _ hnew ht hs => exact ⟨hs, h.of_touches ht (by rw [hs]; decide) hnew⟩
  | failed _ hnew ht hs =>
    have hfiled := h.of_touches ht (by rw [hs]; decide) hnew
    obtain ⟨b, g, hb, hg, hnow, hthen⟩ := hfiled.held
    refine ⟨hfiled.file, hfiled.path, hfiled.small, hfiled.idle, hfiled.backed, b, g, hb, hg,
      fun j hj => ?_, hthen⟩
    -- The chunk is not verified, so there is nothing to count.
    rcases hnow j hj with hcount | hv | rfl
    · exact .inl hcount
    · exact .inr (.inl hv)
    · rw [hs] at hj
      cases hj

theorem trial_filed (h : Settled p n D f s) (i : Nat) :
    Settled p n D (f.trial i s).2.1 (f.trial i s).2.2 := by
  have hensure := ensure_filed h i
  unfold trial
  rcases he : f.ensure i s with ⟨e | out, s'⟩
  · rw [he] at hensure
    exact hensure
  · rw [he] at hensure
    cases out with
    | alreadyVerified => exact hensure.2
    | joined => exact hensure.2
    | fetched m => exact (noteFetched_filed hensure.2).2

omit [RangeSource σ] in
/-- Work on the disk that leaves the sidecar alone. -/
theorem Filed.of_disk (h : Filed p n U D f s) (hledger : s'.ledger = s.ledger)
    (hd : f.localFile.Touches s.disk s'.disk) : Filed p n U D f s' := by
  obtain ⟨hbacked, hcontent⟩ := h.backed.of_touches h.file hd
  obtain ⟨b, g, hb, hrest⟩ := h.held
  rw [← hledger] at hrest
  refine ⟨h.file, ?_, ?_, ?_, hbacked, b, g, hcontent.trans hb, hrest⟩
  · rw [hledger]
    exact h.path
  · rw [hledger]
    exact h.small
  · rw [hledger]
    exact h.idle

omit [RangeSource σ] in
/-- A verdict that is taken back is not counted. -/
theorem takeBack_filed (h : Settled p n D f s) (i : Nat) :
    Settled p n (fun j => D j ∨ j = i) f (takeBack i s) := by
  obtain ⟨b, g, hb, hg, hnow, hthen⟩ := h.held
  refine ⟨h.file, Ledger.demote_path.trans h.path, ?_, fun j => ?_, h.backed, b, g, hb, hg,
    fun j hj => hnow j (Ledger.verified_of_demote hj), fun j hj => ?_⟩
  · show (s.ledger.demote i).2.chunkCount < _
    rw [Ledger.demote_chunkCount]
    exact h.small
  · exact Ledger.state_demote_ne_fetching (h.idle j)
  · show (s.ledger.demote i).2.state j = _ ∨ _
    rw [Ledger.state_demote_any]
    split
    · rename_i hji
      exact .inr (.inr hji.1)
    · exact (hthen j hj).imp_right .inl

omit [RangeSource σ] in
theorem recheck_filed (h : Settled p n D f s) (i : Nat) :
    Settled p n (fun j => D j ∨ j = i) f (f.recheck i s).2 := by
  obtain ⟨hledger, -, hdisk⟩ := f.look_spec i s
  have hlook : Settled p n D f (f.look i s).2 := h.of_disk hledger hdisk
  rw [recheck_eq_look]
  rcases hl : f.look i s with ⟨_ | _, s'⟩
  · rw [hl] at hlook
    exact hlook.mono fun _ hj _ => .inl hj
  · rw [hl] at hlook
    exact takeBack_filed hlook i

end Fetcher

/-! ### Jobs -/

/-- Jobs leave every verified chunk accounted for. -/
theorem jobRoutine_settled [RangeSource σ] : Fetcher.JobRoutine (σ := σ)
    fun f s f' s' => Fetcher.Settled p n D f s → Fetcher.Settled p n D f' s' where
  refl _ _ h := h
  trans h h' hs := h' (h hs)
  trial _ i _ h := Fetcher.trial_filed h i
  flush _ _ h := (Fetcher.flush_filed h).2

/-! ### Readers -/

namespace Reader

open Fetcher (Settled)

variable [RangeSource σ] {r : Reader} {s : Site σ}

/-- The verdict on chunk `i` is taken back for good only if this fails. -/
theorem ensureChunk_filed (h : Settled p n D r.fetcher s) (i : Nat) :
    Settled p n (fun j => D j ∨ ((r.ensureChunk i s).1 ≠ .ok () ∧ j = i))
      (r.ensureChunk i s).2.1.fetcher (r.ensureChunk i s).2.2 := by
  have hchecked : Settled p n (fun j => D j ∨ j = i) (r.recheckOnce i s).2.1.fetcher
      (r.recheckOnce i s).2.2 := by
    have hrecheck := Fetcher.recheck_filed h i
    unfold recheckOnce
    split
    · rcases hr : r.fetcher.recheck i s with ⟨e | ok, s'⟩
      · rw [hr] at hrecheck; exact hrecheck
      · rw [hr] at hrecheck; exact hrecheck
    · exact h.mono fun _ hj _ => .inl hj
  unfold ensureChunk
  rcases hr : r.recheckOnce i s with ⟨e | u, r', s'⟩
  · rw [hr] at hchecked
    exact hchecked.mono fun _ hj _ => hj.imp_right fun hj => ⟨(nomatch ·), hj⟩
  · rw [hr] at hchecked
    dsimp only
    have hensure := Fetcher.ensure_filed hchecked i
    -- A chunk that is verified is so whatever became of its verdict before.
    have hgood : ∀ {U : Nat → Prop} {f : Fetcher} {s : Site σ}, s.ledger.state i = .verified →
        Fetcher.Filed p n U (fun j => D j ∨ j = i) f s → Fetcher.Filed p n U D f s :=
      fun hv hs => hs.mono fun j hj hnot => hj.elim id fun hji => absurd (hji ▸ hv) hnot
    rcases he : r'.fetcher.ensure i s' with ⟨e | out, s''⟩
    · rw [he] at hensure
      exact hensure.mono fun _ hj _ => hj.imp_right fun hj => ⟨(nomatch ·), hj⟩
    · rw [he] at hensure
      cases out with
      | alreadyVerified => exact (hgood hensure.1 hensure.2).mono fun _ hj _ => .inl hj
      | joined => exact (hgood hensure.1 hensure.2).mono fun _ hj _ => .inl hj
      | fetched m =>
        obtain ⟨-, hsettled⟩ := Fetcher.noteFetched_filed (hgood hensure.1 hensure.2)
        exact hsettled.mono fun _ hj _ => .inl hj

theorem ensureChunks_filed (l : List Nat) (h : Settled p n D r.fetcher s) :
    Settled p n (fun j => D j ∨ ((ensureChunks l r s).1 ≠ .ok () ∧ j ∈ l))
      (ensureChunks l r s).2.1.fetcher (ensureChunks l r s).2.2 := by
  induction l generalizing r s with
  | nil => exact h.mono fun _ hj _ => .inl hj
  | cons i rest ih =>
    have hfirst := ensureChunk_filed h i
    unfold ensureChunks
    rcases he : r.ensureChunk i s with ⟨e | u, r', s'⟩
    · rw [he] at hfirst
      refine hfirst.mono fun j hj _ => hj.imp_right fun hj => ⟨fun hok => ?_, ?_⟩
      · cases hok
      · rw [hj.2]
        exact List.mem_cons_self
    · rw [he] at hfirst
      have hfirst : Settled p n D r'.fetcher s' :=
        hfirst.mono fun j hj _ => hj.elim id fun hj => absurd rfl hj.1
      exact (ih hfirst).mono fun j hj _ => hj.imp_right fun hj =>
        ⟨hj.1, List.mem_cons_of_mem _ hj.2⟩

theorem fill_filed (h : Settled p n D r.fetcher s) (range : ByteRange) :
    Settled p n (fun j => D j ∨ j ∈ r.missed range (r.fill range s).1)
      (r.fill range s).2.1.fetcher (r.fill range s).2.2 := by
  have hchunks := ensureChunks_filed (r.fetcher.layout.overlapping range) h
  unfold fill
  rcases he : ensureChunks (r.fetcher.layout.overlapping range) r s with ⟨e | u, r', s'⟩
  · rw [he] at hchunks
    exact hchunks.mono fun _ hj _ => hj.imp_right fun hj => hj.2
  · rw [he] at hchunks
    have hread := r'.fetcher.localFile.touches_readRange range s'.disk
    have hlook : Settled p n _ r'.fetcher
        { s' with disk := (r'.fetcher.localFile.readRange range s'.disk).2 } :=
      hchunks.of_disk rfl hread
    exact hlook.mono fun j hj _ => .inl (hj.elim id fun hj => absurd rfl hj.1)

theorem readRange_filed (h : Settled p n D r.fetcher s) (range : ByteRange) :
    Settled p n (fun j => D j ∨ j ∈ r.missed range (r.readRange range s).1)
      (r.readRange range s).2.1.fetcher (r.readRange range s).2.2 := by
  have hfill := fill_filed h range
  unfold readRange
  split
  · exact h.mono fun _ hj _ => .inl hj
  · split
    · exact h.mono fun _ hj _ => .inl hj
    · rcases hf : r.fill range s with ⟨e | b, r', s'⟩
      · rw [hf] at hfill
        exact hfill
      · rw [hf] at hfill
        dsimp only
        rw [(noteRead_fetcher r' range s'.ledger).1]
        exact hfill

theorem read_filed (h : Settled p n D r.fetcher s) (range : ByteRange) :
    Settled p n (fun j => D j ∨ j ∈ r.missed range (r.read range s).1)
      (r.read range s).2.1.fetcher (r.read range s).2.2 := by
  have hread := readRange_filed h range
  unfold read
  rcases hr : r.readRange range s with ⟨e | ⟨b, window⟩, r', s'⟩
  · rw [hr] at hread
    exact hread
  · rw [hr] at hread
    exact jobRoutine_settled.readAhead r' window s' hread

theorem use_filed (h : Settled p n D r.fetcher s) (u : Use) :
    Settled p n (fun j => D j ∨ j ∈ (r.use s u).1) (r.use s u).2.1.fetcher (r.use s u).2.2 := by
  have hmono : ∀ {f : Fetcher} {s : Site σ}, Settled p n D f s →
      Settled p n (fun j => D j ∨ j ∈ ([] : List Nat)) f s := fun h => h.mono fun _ hj _ => .inl hj
  cases u with
  | read range => exact read_filed h range
  | prebuffer range => exact hmono (jobRoutine_settled.prebuffer r range s h)
  | readRange range => exact readRange_filed h range
  | prefetch j m => exact hmono (jobRoutine_settled.advance j m r.fetcher s h)
  | settle j => exact hmono (jobRoutine_settled.finish j r.fetcher s h)

theorem useAll_filed (uses : List Use) (h : Settled p n D r.fetcher s) :
    Settled p n (fun j => D j ∨ j ∈ (useAll uses r s).1) (useAll uses r s).2.1.fetcher
      (useAll uses r s).2.2 := by
  induction uses generalizing r s D with
  | nil => exact h.mono fun _ hj _ => .inl hj
  | cons u uses ih =>
    refine (ih (use_filed h u)).mono fun j hj _ => ?_
    show D j ∨ j ∈ _ ++ _
    rw [List.mem_append, ← or_assoc]
    exact hj

end Reader

/-! ### From the opening of the sidecar on -/

theorem Ledger.ofSidecar_eq_ok {g : Ledger} {count : Nat} {b : Bytes}
    (h : Ledger.ofSidecar p count b = .ok g) :
    ∃ g', Ledger.restore b = .ok g' ∧ g = { g' with path := some p } := by
  unfold ofSidecar at h
  obtain ⟨g', hg', h⟩ := bind_eq_ok_iff.1 h
  obtain ⟨-, h⟩ := refuse_eq_ok_iff.1 h
  cases h
  exact ⟨g', hg', rfl⟩

open Fetcher (Settled)

/-- A ledger that was opened is what its sidecar holds. -/
theorem open_filed {d d' : Disk} {count : Nat} {g : Ledger} {f : Fetcher}
    (hn : f.localFile.handle.node = .file n) (hb : d.Backed p n)
    (hopen : Ledger.openOrCreate p count d = (.ok g, d')) (hsmall : g.chunkCount < UInt32.size)
    (source : σ) : Settled p n (fun _ => False) f { ledger := g, disk := d', source } := by
  unfold Ledger.openOrCreate at hopen
  split at hopen
  · rcases hload : d.load p with ⟨e | b, d₁⟩
    · rw [hload] at hopen
      cases hopen
    · rw [hload] at hopen
      obtain ⟨hcontent, htouch⟩ := Disk.load_eq_ok hload f.localFile
      obtain ⟨hside, rfl⟩ := Prod.mk.inj hopen
      obtain ⟨g', hrestore, rfl⟩ := Ledger.ofSidecar_eq_ok hside
      obtain ⟨hbacked, hkept⟩ := hb.of_touches hn htouch
      have hidle : ∀ i, g'.state i ≠ .fetching :=
        Ledger.state_ne_fetching_of_idle (Ledger.restore_inFlight hrestore)
      exact ⟨hn, rfl, hsmall, hidle, hbacked, b, g', hkept.trans hcontent, hrestore,
        fun i hi => .inr (.inl hi), fun i hi => .inl hi⟩
  · rcases hsave : d.save p (Ledger.empty count).snapshot with ⟨e | u, d₁⟩
    · have hpersist : { Ledger.empty count with path := some p }.persist d = (.error e, d₁) := hsave
      dsimp only at hopen hpersist
      rw [hpersist] at hopen
      cases hopen
    · have hpersist : { Ledger.empty count with path := some p }.persist d = (.ok u, d₁) := hsave
      dsimp only at hopen hpersist
      rw [hpersist] at hopen
      cases hopen
      obtain ⟨-, hbacked, hcontent⟩ :=
        hb.save (Ledger.length_snapshot_lt (g := Ledger.empty count) hsmall)
      rw [hsave] at hbacked hcontent
      have hidle : ∀ i, (Ledger.empty count).state i ≠ .fetching :=
        fun i => Ledger.state_ne_fetching rfl
      exact ⟨hn, rfl, hsmall, hidle, hbacked, _, _, hcontent, Ledger.restore_snapshot hsmall,
        fun i hi => .inr (.inl hi), fun i hi => .inl hi⟩

namespace Reader

variable [RangeSource σ]

theorem create_eq_ok {entry : Entry} {t : Tree} {g : Ledger} {file : LocalFile}
    {transfer : TransferConfig} {config : ReaderConfig} {r : Reader}
    (h : Reader.create entry t g file transfer config = .ok r) :
    r.fetcher.localFile = file ∧ g.chunkCount = t.leafCount := by
  obtain ⟨-, hfits, rfl⟩ := create_eq_ok_iff.1 h
  exact ⟨rfl, hfits.chunks⟩

/-- When a reader is given up, every verdict of the ledger is in the sidecar, whatever
was in the local file and whatever the source answers. The sidecar holds no other
verdict, unless the chunk belongs to a read that failed. -/
theorem sidecar_after_close {d d' : Disk} {count : Nat} {g : Ledger} {entry : Entry} {t : Tree}
    {file : LocalFile} {transfer : TransferConfig} {config : ReaderConfig} {r : Reader}
    (hn : file.handle.node = .file n) (hb : d.Backed p n)
    (hopen : Ledger.openOrCreate p count d = (.ok g, d'))
    (hr : Reader.create entry t g file transfer config = .ok r) (source : σ) (uses : List Use) :
    let used := useAll uses r { ledger := g, disk := d', source }
    let closed := used.2.1.close used.2.2
    ∃ b g', closed.disk.content? p = some b ∧ Ledger.restore b = .ok g' ∧
      (∀ i, closed.ledger.state i = .verified → g'.state i = .verified) ∧
      ∀ i, i ∉ used.1 → (g'.state i = .verified ↔ closed.ledger.state i = .verified) := by
  obtain ⟨hfile, hcount⟩ := create_eq_ok hr
  have hsmall : g.chunkCount < UInt32.size := by
    rw [hcount]
    exact t.layout.chunkCount_lt
  have hstart := open_filed (f := r.fetcher) (hfile ▸ hn) hb hopen hsmall source
  have hend := useAll_filed uses hstart
  generalize useAll uses r { ledger := g, disk := d', source } = used at hend ⊢
  obtain ⟨missed, r', s'⟩ := used
  dsimp only at hend ⊢
  unfold close Fetcher.close
  split
  · have hsame : ({ r'.fetcher with sincePersist := 0 } : Fetcher).localFile =
        r'.fetcher.localFile := rfl
    obtain ⟨-, hsaved⟩ := hend.persist hsame
    obtain ⟨b, g', hcontent, hrestore, hnow, hthen⟩ := hsaved.held
    have hkept : ∀ i, s'.persist.2.ledger.state i = .verified → g'.state i = .verified := by
      intro i hi
      rcases hnow i hi with hcount | hv | hno
      · exact absurd hcount (Nat.lt_irrefl 0)
      · exact hv
      · exact hno.elim
    refine ⟨b, g', hcontent, hrestore, hkept, fun i hi => ⟨fun hv => ?_, hkept i⟩⟩
    exact (hthen i hv).resolve_right fun h => h.elim False.elim hi
  · rename_i hzero
    obtain ⟨b, g', hcontent, hrestore, hnow, hthen⟩ := hend.held
    have hkept : ∀ i, s'.ledger.state i = .verified → g'.state i = .verified := by
      intro i hi
      rcases hnow i hi with hcount | hv | hno
      · exact absurd hcount hzero
      · exact hv
      · exact hno.elim
    refine ⟨b, g', hcontent, hrestore, hkept, fun i hi => ⟨fun hv => ?_, hkept i⟩⟩
    exact (hthen i hv).resolve_right fun h => h.elim False.elim hi

/-- A ledger of one chunk, which is verified. -/
def allGood : Ledger := { chunkCount := 1, present := .oneSet, valid := .oneSet }

/-- A disk on which the sidecar calls the letters verified, but the local file has lost
them. -/
def damagedDisk : Disk where
  names := [("d", .file 0), ("s", .file 1)]
  files := [List.replicate 8 0, allGood.snapshot]

/-- The disk after the sidecar was read. -/
def openedDisk : Disk := { damagedDisk with clock := 2 }

/-- A reader of the letters. -/
def lettersReader : Reader where
  fetcher := ⟨Session.lettersTree, Session.localCopy "d", {}, 0⟩
  config := {}

theorem openOrCreate_damagedDisk : Ledger.openOrCreate "s" 1 damagedDisk =
    (.ok { allGood with path := some "s" }, openedDisk) := by
  have hrestore : Ledger.restore allGood.snapshot = .ok allGood :=
    Ledger.restore_snapshot (g := allGood) (by decide)
  have hload : damagedDisk.load "s" = (.ok allGood.snapshot, openedDisk) := rfl
  have hside : Ledger.ofSidecar "s" 1 allGood.snapshot = .ok { allGood with path := some "s" } := by
    unfold Ledger.ofSidecar
    rw [hrestore]
    rfl
  unfold Ledger.openOrCreate
  rw [if_pos (by decide), hload]
  dsimp only
  rw [hside]

theorem create_lettersReader : Reader.create { remoteUrl := "", totalSize := 8 }
    Session.lettersTree { allGood with path := some "s" } (Session.localCopy "d") {} {} =
      .ok lettersReader := rfl

theorem backed_damagedDisk : damagedDisk.Backed "s" 0 where
  clear := {
    weather := fun _ _ => rfl
    room := by decide
    target := by decide
    temporary := by decide
    known := fun id h => by
      have hnone : damagedDisk.node? (temporaryFor "s") = none := by decide
      rw [hnone] at h
      cases h }
  apart := by decide
  shielded := by decide
  known := by decide
  sidecar := fun id h => by
    have hnode : damagedDisk.node? "s" = some (.file 1) := by decide
    rw [hnode] at h
    rw [← Node.file.inj (Option.some.inj h)]
    decide

/-- The site after the sidecar was read. -/
def reopened (source : ScriptedSource) : Site ScriptedSource where
  ledger := { allGood with path := some "s" }
  disk := openedDisk
  source := source

/-- The site after the letters were read, or were tried to be read, and the reader was
given up. -/
def readAndClosed (source : ScriptedSource) : Site ScriptedSource :=
  let used := lettersReader.useAll [.read Session.allLetters] (reopened source)
  used.2.1.close used.2.2

/-- With a remote that has the letters the damage is found and repaired. -/
theorem sidecar_after_close_repaired :
    (Session.localCopy "d").handle.node = .file 0 ∧ damagedDisk.Backed "s" 0 ∧
      ∃ b g', (readAndClosed { bytes := Session.letters }).disk.content? "s" = some b ∧
        Ledger.restore b = .ok g' ∧ g'.state 0 = .verified := by
  have hverified : (readAndClosed { bytes := Session.letters }).ledger.state 0 = .verified := by
    decide +kernel
  obtain ⟨b, g', hcontent, hrestore, hnow, -⟩ := sidecar_after_close rfl backed_damagedDisk
    openOrCreate_damagedDisk create_lettersReader ({ bytes := Session.letters } : ScriptedSource)
    [.read Session.allLetters]
  unfold readAndClosed reopened at hverified ⊢
  exact ⟨rfl, backed_damagedDisk, b, g', hcontent, hrestore, hnow 0 hverified⟩

/-- With a remote that refuses, the read fails and the verdict is taken back, but the
sidecar still holds it. -/
theorem sidecar_after_failed_read : ¬ ∀ (d d' : Disk) (p : Path) (n count : Nat) (g : Ledger)
    (entry : Entry) (t : Tree) (file : LocalFile) (transfer : TransferConfig)
    (config : ReaderConfig) (r : Reader), file.handle.node = .file n → d.Backed p n →
      Ledger.openOrCreate p count d = (.ok g, d') →
      Reader.create entry t g file transfer config = .ok r → config.recheckLocal = true →
      ∀ (source : ScriptedSource) (uses : List Use),
        let used := useAll uses r { ledger := g, disk := d', source }
        let closed := used.2.1.close used.2.2
        ∃ b g', closed.disk.content? p = some b ∧ Ledger.restore b = .ok g' ∧
          ∀ i, g'.state i = .verified ↔ closed.ledger.state i = .verified := by
  intro h
  let source : ScriptedSource := { always := [(0, .refuse (.status 404))] }
  obtain ⟨b, g', hcontent, hrestore, hsame⟩ := h damagedDisk openedDisk "s" 0 1 _ _ _ _ _ _
    lettersReader rfl backed_damagedDisk openOrCreate_damagedDisk create_lettersReader rfl source
    [.read Session.allLetters]
  have hheld : (readAndClosed source).disk.content? "s" = some allGood.snapshot := by
    decide +kernel
  have hinvalid : (readAndClosed source).ledger.state 0 = .invalid := by decide +kernel
  unfold readAndClosed reopened at hheld hinvalid
  obtain rfl : allGood.snapshot = b := Option.some.inj (hheld.symm.trans hcontent)
  have hgood := (Ledger.restore_snapshot (g := allGood) (by decide)).symm.trans hrestore
  have hverified : g'.state 0 = .verified := by
    rw [← Except.ok.inj hgood]
    decide
  cases hinvalid.symm.trans ((hsame 0).1 hverified)

end Reader
end VerifiedCopy
