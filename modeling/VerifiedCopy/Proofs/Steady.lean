/-
# Fetches whose outcome is settled beforehand

A site is steady if the answers of the source depend on the range only, if what the local
file has can be read, if writing a chunk to it comes out the same way each time, and if the
ledger can always be saved (`Site.Steady`). There the outcome of a fetch is settled before
anybody asks for it: a chunk has bytes that a fetch brings, or an error that every fetch
ends with, the number of attempts included (`Fetcher.forecast`, `fulfil_forecast`).

So it does not matter who brings a chunk in, and when. Whatever jobs do on a steady site,
a chunk that is verified and right afterwards was so before, or it has the bytes of its
forecast (`Site.Gains`, `proceeds_routine`).

A site on which nothing fails is steady if the source has the content, and bytes of the
content are foretold there (`Able.steady`, `forecast_content`).

Key definitions: `Site.Steady`, `Fetcher.forecast`, `Fetcher.Foretold`, `Site.Gains`,
`Site.Prepared`, `Fetcher.Twin`.
Key theorems: `fulfil_forecast`, `ensure_forecast`, `ensure_gains`, `proceeds_routine`,
`Able.steady`.
-/
import VerifiedCopy.Proofs.Asking
import VerifiedCopy.Proofs.Bringing
import VerifiedCopy.Proofs.Retrying

namespace VerifiedCopy

open Reader (Holds)

/-! ### Steady sites -/

namespace Site

variable {σ : Type} [RangeSource σ] {t : Tree} {file : LocalFile}
  {answer : ByteRange → Except FetchError Bytes} {written : Nat → Bytes → Except Error Unit}
  {s s' s'' : Site σ}

/-- Whatever work is done from here on: a request for positions of the content is answered by its
range, the local file gives out the bytes that it has of the content, writing a chunk comes out by
its place and its bytes, and the ledger can be saved. -/
structure Steady (t : Tree) (file : LocalFile) (answer : ByteRange → Except FetchError Bytes)
    (written : Nat → Bytes → Except Error Unit) (s : Site σ) : Prop where
  answers : ∀ claims s', Run t file s claims s' → ∀ (r : ByteRange) (limit : Duration),
    r.stop ≤ t.layout.totalSize → (RangeSource.fetch s'.source s'.disk r limit).1 = answer r
  reads : ∀ claims s', Run t file s claims s' → ∀ r : ByteRange, r.stop ≤ t.layout.totalSize →
    r.stop ≤ (file.content s'.disk).length →
      (file.readRange r s'.disk).1 = .ok ((file.content s'.disk).slice r.start r.size)
  writes : ∀ claims s', Run t file s claims s' → ∀ i r b, t.layout.chunkRange? i = some r →
    b.length = r.size → (file.writeDurable r.start b s'.disk).1 = written r.start b
  saves : ∀ claims s', Run t file s claims s' → s'.persist.1 = .ok ()

theorem Steady.of_run (h : Steady t file answer written s) (hrun : ∃ c, Run t file s c s') :
    Steady t file answer written s' := by
  obtain ⟨c, hrun⟩ := hrun
  exact {
    answers := fun c' s'' hrun' => h.answers _ s'' (hrun.trans hrun')
    reads := fun c' s'' hrun' => h.reads _ s'' (hrun.trans hrun')
    writes := fun c' s'' hrun' => h.writes _ s'' (hrun.trans hrun')
    saves := fun c' s'' hrun' => h.saves _ s'' (hrun.trans hrun') }

end Site

/-! ### Chunks and the bytes around them -/

namespace Layout

variable {t : Tree} {a b : Bytes} {i : Nat} {r : ByteRange}

/-- The same bytes make the same chunk. -/
theorem cut_of_sameChunk (h : t.SameChunk i a b) : t.layout.cut a i = t.layout.cut b i := by
  unfold cut
  cases hr : t.layout.chunkRange? i with
  | none => rfl
  | some r =>
    refine Bytes.slice_congr fun k hk hk' => h r k hr ?_
    rw [ByteRange.contains_iff]
    unfold ByteRange.size at hk'
    omega

/-- A range lies inside some content if the chunks that it overlaps do. -/
theorem stop_le_of_inside (hne : r.start < r.stop) (hr : r.stop ≤ t.layout.totalSize)
    (h : ∀ i ∈ t.layout.overlapping r, t.Inside a i) : r.stop ≤ a.length := by
  -- The chunk of the last position reaches as far as the range.
  have hlast : r.stop - 1 < t.layout.totalSize := by omega
  have hin : r.contains (r.stop - 1) = true := by
    rw [ByteRange.contains_iff]
    omega
  obtain ⟨q, hq, hk⟩ := exists_chunkRange? hlast
  have hstop := h _ (mem_overlapping_iff.2 ⟨_, hin, hlast, rfl⟩) q hq
  rw [ByteRange.contains_iff] at hk
  omega

end Layout

theorem Tree.SameChunk.refl (t : Tree) (i : Nat) (a : Bytes) : t.SameChunk i a a :=
  fun _ _ _ _ => rfl

/-- Bad verdicts do not move the sidecar. -/
theorem Ledger.path_recordInvalid_iterate {g : Ledger} {i : Nat} (n : Nat) :
    ((Ticket.recordInvalid ⟨i⟩)^[n] g).path = g.path := by
  induction n generalizing g with
  | zero => rfl
  | succ n ih => exact ih

/-! ### What a fetch comes to -/

namespace Fetcher

open Site (Ready Calm Run Step Steady)

variable {σ : Type} [RangeSource σ] {t : Tree} {file : LocalFile} {f : Fetcher}
  {answer : ByteRange → Except FetchError Bytes} {written : Nat → Bytes → Except Error Unit}
  {s : Site σ} {i j : Nat} {r : ByteRange}

/-- What a fetch of chunk `i` comes to, if every request is answered by its range and every write
comes out by its place and its bytes: the bytes of the chunk, or the failure that ends the last
attempt. -/
def forecast (f : Fetcher) (answer : ByteRange → Except FetchError Bytes)
    (written : Nat → Bytes → Except Error Unit) (i : Nat) : Except Error Bytes :=
  match f.layout.chunkRange? i with
  | none => .error (.invalidConfiguration s!"chunk {i} outside layout")
  | some r =>
    match f.judge i r (answer r) with
    | .good b =>
      match written r.start b with
      | .ok () => .ok b
      | .error e => .error (e.forChunk i)
    | j => .error (j.toError i (if j.isRetryable then f.config.maxRetries.toNat + 1 else 1))

omit [RangeSource σ] in
theorem deliver_eq_ok {b : Bytes} {n : Nat} (h : (f.deliver i r b s).1 = .ok n) :
    (f.localFile.writeDurable r.start b s.disk).1 = .ok () ∧
      (f.deliver i r b s).2.disk = (f.localFile.writeDurable r.start b s.disk).2 := by
  unfold deliver at h ⊢
  rcases hw : f.localFile.writeDurable r.start b s.disk with ⟨e | u, d⟩
  · rw [hw] at h
    cases h
  · exact ⟨rfl, rfl⟩

omit [RangeSource σ] in
/-- Right bytes that can be written are what is foretold. -/
theorem forecast_of_good {b : Bytes} (hf : f.Serves t file) (hr : t.layout.chunkRange? i = some r)
    (hb : f.judge i r (answer r) = .good b) (hw : written r.start b = .ok ()) :
    f.forecast answer written i = .ok b := by
  have hlayout : f.layout.chunkRange? i = some r := hf.layout_eq ▸ hr
  unfold forecast
  rw [hlayout]
  dsimp only
  rw [hb]
  dsimp only
  rw [hw]

/-- The answers of a steady source do not change while it is asked. -/
theorem reply_steady (h : Steady t file answer written s) (hr : r.stop ≤ t.layout.totalSize)
    (limit : Duration) (n : Nat) : reply s.source s.disk r limit n = answer r := by
  induction n generalizing s with
  | zero => exact h.answers [] s (.nil s) r limit hr
  | succ n ih => exact ih (h.of_run ⟨[], .single (.ask s r limit)⟩)

/-- The attempts to fetch a chunk from a steady source end with the only answer that there is: the
first time if it is final, and else the last time. -/
theorem fetchVerified_steady (hf : f.Serves t file) (h : Steady t file answer written s)
    (hr : t.layout.chunkRange? i = some r) : ∃ n x,
      n = (if (f.judge i r (answer r)).isRetryable then f.config.maxRetries.toNat else 0) ∧
      f.fetchVerified ⟨i⟩ s = f.conclude ⟨i⟩ r (n + 1)
        { s with source := x, ledger := (Ticket.recordInvalid ⟨i⟩)^[n] s.ledger }
        (f.judge i r (answer r)) := by
  have hstop := Layout.stop_le_of_range hr
  have hlayout : f.layout.chunkRange? i = some r := hf.layout_eq ▸ hr
  obtain ⟨n, hn, hbefore, hend, heq⟩ := attempts_eq (f := f) (r := r) ⟨i⟩
    f.config.maxRetries.toNat 1 s
  simp only [reply_steady h hstop] at hbefore hend heq
  rw [← fetchVerified_of_range s hlayout, Nat.add_comm 1 n] at heq
  refine ⟨n, _, ?_, heq⟩
  split
  · rename_i hagain
    exact hend.resolve_left (isRetryable_judge_iff.1 hagain)
  · rename_i hfinal
    have hnow := Classical.not_not.1 (mt isRetryable_judge_iff.2 hfinal)
    exact Nat.eq_zero_of_not_pos fun hpos => hbefore 0 hpos hnow

/-- Work came to what was foretold of chunk `i`: it succeeded or failed as foretold, a chunk that is
verified afterwards has the bytes foretold, and other chunks inside the local file have the bytes
they had. -/
structure Foretold (t : Tree) (file : LocalFile) (i : Nat) (foretold : Except Error Bytes)
    (s : Site σ) (res : Except Error Unit) (s' : Site σ) : Prop where
  result : res = foretold.map fun _ => ()
  own : s'.ledger.state i = .verified → foretold = .ok (t.layout.cut (file.content s'.disk) i)
  others : ∀ j ≠ i, t.Inside (file.content s.disk) j →
    t.SameChunk j (file.content s'.disk) (file.content s.disk)

omit [RangeSource σ] in
/-- An answer leads to what was foretold. -/
theorem Concluded.forecast {d : Disk} {k : Nat} {res : Except Error ChunkOutcome} {s' : Site σ}
    (h : Concluded f i r k d (answer r) res s') (hf : f.Serves t file)
    (hr : t.layout.chunkRange? i = some r)
    (hk : k = if (f.judge i r (answer r)).isRetryable then f.config.maxRetries.toNat + 1 else 1)
    (hw : ∀ b, b.length = r.size → (file.writeDurable r.start b d).1 = written r.start b) :
    (res.map fun _ => ()) = (f.forecast answer written i).map (fun _ => ()) ∧
      (s'.ledger.state i = .verified →
        f.forecast answer written i = .ok (t.layout.cut (file.content s'.disk) i)) := by
  have hlayout : f.layout.chunkRange? i = some r := hf.layout_eq ▸ hr
  unfold Fetcher.forecast
  rw [hlayout]
  dsimp only
  generalize answer r = a at *
  cases h with
  | stored hb hwrite hs hslice =>
    rw [hf.2, hw _ hb.1] at hwrite
    rw [judge_eq_of_right hb]
    dsimp only
    rw [hwrite, Layout.cut_of_range hr, ← hf.2, hslice]
    exact ⟨rfl, fun _ => rfl⟩
  | unwritten hb hwrite hs =>
    rw [hf.2, hw _ hb.1] at hwrite
    rw [judge_eq_of_right hb, hs]
    dsimp only
    rw [hwrite]
    exact ⟨rfl, nofun⟩
  | corrupt hlen hb hs hd =>
    rw [judge_eq_of_wrong hlen hb] at hk ⊢
    rw [hk, hs]
    exact ⟨rfl, nofun⟩
  | misfit hlen hs hd =>
    rw [judge_eq_of_length hlen] at hk ⊢
    rw [hk, hs]
    exact ⟨rfl, nofun⟩
  | refused hs hd =>
    rw [hk, hs]
    exact ⟨rfl, nofun⟩

omit [RangeSource σ] in
/-- The end of a fetch changes bytes of its own chunk only. -/
theorem conclude_others (hf : f.Serves t file) (hs : Ready file s)
    (hr : t.layout.chunkRange? i = some r) (k : Nat) (a : Except FetchError Bytes) (hj : j ≠ i)
    (hin : t.Inside (file.content s.disk) j) :
    t.SameChunk j (file.content (f.conclude ⟨i⟩ r k s (f.judge i r a)).2.disk)
      (file.content s.disk) := by
  cases hjudge : f.judge i r a with
  | good b =>
    obtain ⟨-, n, hcontent⟩ := deliver_content hf hs i r b
    show t.SameChunk j (file.content (f.deliver i r b s).2.disk) _
    rw [hcontent]
    refine Site.sameChunk_overlay hin (Ne.symm hj) hr ?_
    rw [← (judge_eq_good hjudge).1]
    exact List.length_take_le' n b
  | corrupt => exact .refl t j _
  | failed e => exact .refl t j _

theorem fulfil_disk (tk : Ticket) (s : Site σ) :
    (f.fulfil tk s).2.disk = (f.fetchVerified tk s).2.disk := by
  unfold fulfil
  split
  · rename_i h
    rw [h]
  · rename_i h
    rw [h]

/-- **Fetches are foretold.** On a steady site the fetch of a chunk comes to its forecast. -/
theorem fulfil_forecast (hf : f.Serves t file) (hs : Ready file s)
    (h : Steady t file answer written s) (hr : t.layout.chunkRange? i = some r)
    (hi : s.ledger.state i = .fetching) :
    Foretold t file i (f.forecast answer written i) s
      ((f.fulfil ⟨i⟩ s).1.map fun _ => ()) (f.fulfil ⟨i⟩ s).2 := by
  have hlayout : f.layout.chunkRange? i = some r := hf.layout_eq ▸ hr
  obtain ⟨n, x, hn, hfetch⟩ := fetchVerified_steady hf h hr
  have hconcluded := fulfil_conclude (answer r) hfetch (Ledger.state_recordInvalid_iterate n hi)
    (hf.2 ▸ hs.known) hlayout
  have hwrites : ∀ b, b.length = r.size →
      (file.writeDurable r.start b s.disk).1 = written r.start b :=
    fun b hb => h.writes [] s (.nil s) i r b hr hb
  obtain ⟨hresult, hown⟩ := hconcluded.forecast hf hr (by rw [hn]; split <;> rfl) hwrites
  refine ⟨hresult, hown, fun j hj hin => ?_⟩
  rw [fulfil_disk, hfetch]
  have hready : Ready file
      { s with source := x, ledger := (Ticket.recordInvalid ⟨i⟩)^[n] s.ledger } :=
    ⟨hs.known, fun p hp => hs.shielded p (by rw [← Ledger.path_recordInvalid_iterate n]; exact hp)⟩
  exact conclude_others hf hready hr _ _ hj hin

/-- A chunk that is neither verified nor in flight comes to its forecast when somebody makes sure of
it. -/
theorem ensure_forecast (hf : f.Serves t file) (hs : Calm file s)
    (h : Steady t file answer written s) (hcount : s.ledger.chunkCount = t.leafCount)
    (hi : i < t.leafCount) (hv : s.ledger.state i ≠ .verified) :
    Foretold t file i (f.forecast answer written i) s
      ((f.ensure i s).1.map fun _ => ()) (f.ensure i s).2 := by
  have hlt : i < s.ledger.chunkCount := hcount ▸ hi
  have hfree := Ledger.state_ne_fetching_of_idle hs.idle i
  obtain ⟨tk, htk⟩ := Ledger.claim_owner_iff.2 ⟨hlt, hfree, hv⟩
  have hclaim : s.ledger.claim i = (.ok (.owner tk), (s.ledger.claim i).2) := by rw [← htk]
  obtain ⟨rfl, -, -, -, hdepart⟩ := Ledger.claim_eq_owner hclaim
  rw [hdepart] at hclaim
  have hstep : Step t file s _ { s with ledger := s.ledger.depart i } := .claim hclaim
  obtain ⟨r, hr⟩ := Layout.exists_range hi
  have hfulfil := fulfil_forecast (s := { s with ledger := s.ledger.depart i }) hf
    (hstep.ready hs.toReady) (h.of_run ⟨_, .single hstep⟩) hr
    ((Ledger.state_depart hlt i).trans (if_pos rfl))
  rw [ensure_of_free hlt hfree hv]
  exact ⟨hfulfil.result, hfulfil.own, hfulfil.others⟩

/-- Nothing is done about a chunk that is verified. -/
theorem ensure_verified (hv : s.ledger.state i = .verified) :
    f.ensure i s = (.ok .alreadyVerified, s) := by
  have hclaim : s.ledger.claim i = (.ok .verified, (s.ledger.claim i).2) := by
    rw [← Ledger.claim_of_verified hv]
  obtain ⟨hsame, -⟩ := Ledger.claim_eq_verified hclaim
  rw [hsame] at hclaim
  unfold ensure
  rw [hclaim]
  rfl

/-- Nothing is done about a chunk that does not exist. -/
theorem ensure_outside (hi : s.ledger.chunkCount ≤ i) : (f.ensure i s).2 = s := by
  unfold ensure Ledger.claim
  rw [if_neg (Nat.not_lt.2 hi)]

end Fetcher

/-! ### What is gained on a steady site -/

namespace Site

variable {σ : Type} [RangeSource σ] {t : Tree} {file : LocalFile}
  {answer : ByteRange → Except FetchError Bytes} {written : Nat → Bytes → Except Error Unit}
  {foretold : Nat → Except Error Bytes} {s s' s'' : Site σ} {i : Nat}
  {c : List (Nat × ChunkState)}

theorem Step.chunkCount (h : Step t file s c s') :
    s'.ledger.chunkCount = s.ledger.chunkCount := by
  cases h with
  | claim h =>
    obtain ⟨-, -, -, -, rfl⟩ := Ledger.claim_eq_owner h
    rfl
  | settle h o ho => exact Ledger.settle_chunkCount
  | demote h hb => exact Ledger.demote_chunkCount
  | ask | blame | write | look | persist => rfl

theorem Run.chunkCount (h : Run t file s c s') :
    s'.ledger.chunkCount = s.ledger.chunkCount := by
  induction h with
  | nil => rfl
  | cons hstep _ ih => exact ih.trans hstep.chunkCount

/-- From the first site to the second no chunk became verified and right but with the bytes
foretold. -/
structure Gains (t : Tree) (file : LocalFile) (foretold : Nat → Except Error Bytes)
    (s s' : Site σ) : Prop where
  run : ∃ c, Run t file s c s'
  gained : ∀ i, Holds t file s' i →
    Holds t file s i ∨ foretold i = .ok (t.layout.cut (file.content s'.disk) i)

theorem Gains.refl (s : Site σ) : Gains t file foretold s s :=
  ⟨⟨[], .nil s⟩, fun _ h => .inl h⟩

theorem Gains.trans (h : Gains t file foretold s s') (h' : Gains t file foretold s' s'')
    (hs : Ready file s) : Gains t file foretold s s'' := by
  obtain ⟨c, hrun⟩ := h.run
  obtain ⟨c', hrun'⟩ := h'.run
  refine ⟨⟨_, hrun.trans hrun'⟩, fun i hi => ?_⟩
  refine (h'.gained i hi).elim (fun hbetween => ?_) .inr
  refine (h.gained i hbetween).imp id fun hcut => ?_
  -- What was there on the way is there in the end.
  obtain ⟨-, -, hsame⟩ := hrun'.stable (hrun.ready hs) hbetween.1 hbetween.2
  rw [hcut, Layout.cut_of_sameChunk hsame]

/-- Nothing is gained where no byte changes and nothing becomes verified. -/
theorem Gains.of_quiet (hrun : ∃ c, Run t file s c s')
    (hstate : ∀ i, s'.ledger.state i = .verified → s.ledger.state i = .verified)
    (hcontent : file.content s'.disk = file.content s.disk) : Gains t file foretold s s' :=
  ⟨hrun, fun i hi => .inl ⟨hstate i hi.1, hcontent ▸ hi.2⟩⟩

theorem gains_persist (hs : Ready file s) : Gains t file foretold s s.persist.2 :=
  .of_quiet ⟨[], .single (.persist s)⟩ (fun _ => id) hs.persist.2

/-- A chunk that came to what was foretold is all that is gained. -/
theorem Gains.of_foretold {res : Except Error Unit} (hrun : ∃ c, Run t file s c s')
    (h : Fetcher.Foretold t file i (foretold i) s res s')
    (hstate : ∀ j ≠ i, s'.ledger.state j = s.ledger.state j) (hs : Covered t file s) :
    Gains t file foretold s s' := by
  refine ⟨hrun, fun j hj => ?_⟩
  by_cases hji : j = i
  · subst hji
    exact .inr (h.own hj.1)
  · have hv : s.ledger.state j = .verified := (hstate j hji).symm.trans hj.1
    have hsame := h.others j hji (hs j hv)
    exact .inl ⟨hv, matches_of_sameChunk hj.2 fun r k hr hk => (hsame r k hr hk).symm⟩

/-- A calm and steady site with the ledger of the content, where verified chunks lie inside the
local file. -/
structure Prepared (t : Tree) (file : LocalFile) (answer : ByteRange → Except FetchError Bytes)
    (written : Nat → Bytes → Except Error Unit) (s : Site σ) : Prop extends Calm file s where
  steady : Steady t file answer written s
  count : s.ledger.chunkCount = t.leafCount
  covered : Covered t file s

theorem Prepared.of_run (h : Prepared t file answer written s) (hrun : ∃ c, Run t file s c s')
    (hcalm : Calm file s') : Prepared t file answer written s' where
  toCalm := hcalm
  steady := h.steady.of_run hrun
  count := by
    obtain ⟨c, hrun⟩ := hrun
    exact hrun.chunkCount.trans h.count
  covered := by
    obtain ⟨c, hrun⟩ := hrun
    exact hrun.covered h.toReady h.covered

end Site

namespace Fetcher

open Site (Calm Gains Prepared Steady Touches)

variable {σ : Type} [RangeSource σ] {t : Tree} {file : LocalFile} {f f' f'' f₀ : Fetcher}
  {answer : ByteRange → Except FetchError Bytes} {written : Nat → Bytes → Except Error Unit}
  {s s' s'' : Site σ} {i : Nat}

/-- The same fetcher with another count of chunks to be saved. -/
def Twin (f₀ f : Fetcher) : Prop := ∃ n, f = { f₀ with sincePersist := n }

theorem Twin.refl (f : Fetcher) : f.Twin f := ⟨f.sincePersist, rfl⟩

theorem Twin.serves_iff (h : f₀.Twin f) : f.Serves t file ↔ f₀.Serves t file := by
  obtain ⟨n, rfl⟩ := h
  exact .rfl

/-- Twins have the same forecasts. -/
theorem Twin.forecast (h : f₀.Twin f) : f.forecast answer written = f₀.forecast answer written := by
  obtain ⟨n, rfl⟩ := h
  rfl

omit [RangeSource σ] in
theorem Twin.noteFetched (h : f₀.Twin f) (s : Site σ) : f₀.Twin (f.noteFetched s).2.1 := by
  obtain ⟨n, rfl⟩ := h
  unfold Fetcher.noteFetched
  split
  · exact ⟨0, rfl⟩
  · exact ⟨n + 1, rfl⟩

omit [RangeSource σ] in
theorem Twin.flush (h : f₀.Twin f) (s : Site σ) : f₀.Twin (f.flush s).2.1 := by
  obtain ⟨n, rfl⟩ := h
  exact ⟨0, rfl⟩

/-- Whoever makes sure of a chunk works on that chunk only. -/
theorem ensure_touches (f : Fetcher) (i : Nat) (s : Site σ) : Touches f i s (f.ensure i s).2 := by
  have hensured := f.ensure_cases i s
  rcases he : f.ensure i s with ⟨r, s'⟩
  rw [he] at hensured
  dsimp only at hensured ⊢
  cases hensured with
  | outside _ | already _ => exact .refl s
  | joined _ ht _ | fetched _ _ ht _ | failed _ _ ht _ => exact ht

/-- From a prepared site a fetcher and its site come to a twin and a prepared site, and nothing is
gained but what was foretold. -/
def Proceeds (t : Tree) (file : LocalFile) (answer : ByteRange → Except FetchError Bytes)
    (written : Nat → Bytes → Except Error Unit) (f₀ : Fetcher) (f : Fetcher) (s : Site σ)
    (f' : Fetcher) (s' : Site σ) : Prop :=
  f₀.Twin f → Prepared t file answer written s →
    f₀.Twin f' ∧ Prepared t file answer written s' ∧
      Gains t file (f₀.forecast answer written) s s'

theorem ensure_gains (hf : f.Serves t file) (i : Nat) (h : Prepared t file answer written s) :
    Prepared t file answer written (f.ensure i s).2 ∧
      Gains t file (f.forecast answer written) s (f.ensure i s).2 := by
  obtain ⟨hcalm, hrun, -⟩ := ensure_spec hf i h.toCalm
  refine ⟨h.of_run hrun hcalm, ?_⟩
  by_cases hv : s.ledger.state i = .verified
  · rw [ensure_verified hv]
    exact .refl s
  · by_cases hi : i < t.leafCount
    · exact .of_foretold hrun (ensure_forecast hf h.toCalm h.steady h.count hi hv)
        (ensure_touches f i s).ledger.state h.covered
    · rw [ensure_outside (h.count ▸ Nat.not_lt.1 hi)]
      exact .refl s

theorem noteFetched_gains {foretold : Nat → Except Error Bytes} (hf : f.Serves t file)
    (h : Prepared t file answer written s) :
    Prepared t file answer written (f.noteFetched s).2.2 ∧
      Gains t file foretold s (f.noteFetched s).2.2 := by
  obtain ⟨-, hleads⟩ := noteFetched_leads hf s
  obtain ⟨hcalm, hrun⟩ := hleads h.toCalm
  refine ⟨h.of_run hrun hcalm, ?_⟩
  unfold noteFetched
  split
  · exact Site.gains_persist h.toReady
  · exact .refl s

/-- What is not foretold is not gained, whatever jobs do. -/
theorem proceeds_routine (hf₀ : f₀.Serves t file) :
    JobRoutine (σ := σ) (Proceeds t file answer written f₀) where
  refl f s := fun htwin h => ⟨htwin, h, .refl s⟩
  trans h h' := fun htwin hs => by
    obtain ⟨htwin', hs', hgains⟩ := h htwin hs
    obtain ⟨htwin'', hs'', hgains'⟩ := h' htwin' hs'
    exact ⟨htwin'', hs'', hgains.trans hgains' hs.toReady⟩
  trial f i s := fun htwin h => by
    have hf := htwin.serves_iff.2 hf₀
    obtain ⟨hs', hgains⟩ := ensure_gains hf i h
    rw [htwin.forecast] at hgains
    unfold trial
    rcases he : f.ensure i s with ⟨e | out, s'⟩
    · rw [he] at hs' hgains
      exact ⟨htwin, hs', hgains⟩
    · rw [he] at hs' hgains
      cases out with
      | alreadyVerified => exact ⟨htwin, hs', hgains⟩
      | joined => exact ⟨htwin, hs', hgains⟩
      | fetched n =>
        obtain ⟨hs'', hgains'⟩ := noteFetched_gains hf hs'
        exact ⟨htwin.noteFetched s', hs'', hgains.trans hgains' h.toReady⟩
  flush f s := fun htwin h => by
    obtain ⟨hcalm, hrun⟩ := Site.leads_persist (t := t) s h.toCalm
    exact ⟨htwin.flush s, h.of_run hrun hcalm, Site.gains_persist h.toReady⟩

end Fetcher

/-! ### Able sites -/

namespace Site

variable {σ : Type} [RangeSource σ] {t : Tree} {file : LocalFile} {D : Bytes}
  {s s' : Site σ} {c : List (Nat × ChunkState)}

/-- Nothing comes to fail on an able site. -/
theorem Able.of_step (h : Able file t.layout.totalSize s)
    (hcount : s.ledger.chunkCount < UInt32.size) (hstep : Step t file s c s') :
    Able file t.layout.totalSize s' := by
  cases hstep with
  | claim hclaim =>
    obtain ⟨-, -, -, -, rfl⟩ := Ledger.claim_eq_owner hclaim
    exact h.of_ledger rfl
  | ask r limit => exact h.of_source
  | blame hi => exact h.of_ledger rfl
  | @write i r b hi hr hlen hb => exact h.of_touches (file.touches_writeDurable r.start b s.disk)
  | settle hi o ho => exact h.of_ledger (Ledger.settle_path o)
  | look r => exact h.of_touches (file.touches_readRange r s.disk)
  | demote hv hb => exact h.of_ledger Ledger.demote_path
  | persist =>
    obtain ⟨d, hpersist, hs', -⟩ := h.persist hcount
    rw [hpersist]
    exact hs'

theorem Able.of_run (h : Able file t.layout.totalSize s)
    (hcount : s.ledger.chunkCount < UInt32.size) (hrun : Run t file s c s') :
    Able file t.layout.totalSize s' := by
  induction hrun with
  | nil => exact h
  | cons hstep _ ih => exact ih (h.of_step hcount hstep) (hstep.chunkCount ▸ hcount)

/-- An able site is steady if the source has the content. -/
theorem Able.steady (h : Able file t.layout.totalSize s)
    (hcount : s.ledger.chunkCount = t.leafCount) (hD : D.length = t.layout.totalSize)
    (hh : s.Honest t file D) :
    Steady t file (fun r => .ok (D.slice r.start r.size)) (fun _ _ => .ok ()) s := by
  have hsmall : s.ledger.chunkCount < UInt32.size := hcount ▸ t.layout.chunkCount_lt
  have hable : ∀ claims s', Run t file s claims s' → Able file t.layout.totalSize s' :=
    fun _ _ hrun => h.of_run hsmall hrun
  refine ⟨fun claims s' hrun r limit hr => hh claims s' hrun r limit (hD ▸ hr),
    fun claims s' hrun r hr hin => ?_, fun claims s' hrun i r b hr hb => ?_,
    fun claims s' hrun => ?_⟩
  · obtain ⟨d, hread, -⟩ := (hable claims s' hrun).readRange hr hin
    rw [hread]
  · obtain ⟨d, hwrite, -⟩ := (hable claims s' hrun).writeDurable (Layout.ne_nil_of_range hr hb)
      (Layout.write_inside hr hb)
    rw [hwrite]
  · obtain ⟨d, hpersist, -⟩ := (hable claims s' hrun).persist (hrun.chunkCount ▸ hsmall)
    rw [hpersist]

end Site

/-- A source that has the content is foretold to bring it, if all can be written. -/
theorem Fetcher.forecast_content {t : Tree} {file : LocalFile} {f : Fetcher} {D : Bytes}
    {c : UInt32} {i : Nat} (ht : Tree.ofContent D c = .ok t) (hf : f.Serves t file)
    (hi : i < t.leafCount) :
    f.forecast (fun r => .ok (D.slice r.start r.size)) (fun _ _ => .ok ()) i =
      .ok (t.layout.cut D i) := by
  obtain ⟨r, hr⟩ := Layout.exists_range hi
  have hjudge := judge_content ht hf hr
  rw [Layout.cut_of_range hr] at hjudge ⊢
  exact forecast_of_good hf hr hjudge rfl

end VerifiedCopy
