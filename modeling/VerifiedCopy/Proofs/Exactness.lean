/-
# Exact reads

When the source has the content and nothing fails, a reader that checks local bytes
gives out exactly the content, and asks the source for nothing that it does not need.

A read has to ask for the chunks that are wanting: not verified, or found wrong when
the reader comes to them for the first time (`Reader.wants`). From one read to the next
every chunk is a chunk of the content or what it was in the beginning, and those the
reader has come to are the content's and stay verified (`Reader.Kept`). They are not
wanting any more, which is why no chunk is asked for twice.

This covers readers that do not read ahead, and chunks that nobody else is fetching: a
read that needs a chunk in flight waits for it and takes what comes of it.

Key definitions: `Reader.wants`, `Reader.Works`, `Reader.Kept`, `Reader.afterReads`.
Key theorems: `ensureChunk_brings`, `ensureChunks_brings`, `read_brings`, `Kept.read`,
`reads_exact`.
-/
import VerifiedCopy.Proofs.Bringing

namespace VerifiedCopy

/-! ### Reads -/

namespace Reader

open Site (Sturdy Honest Brings)

variable {σ : Type} [RangeSource σ] {t : Tree} {file : LocalFile} {D : Bytes} {c : UInt32}
  {r r' : Reader} {s s' s₀ : Site (Logged σ)} {i : Nat} {l done : List Nat}

omit [RangeSource σ] in
/-- Whether a read that needs chunk `i` has to ask for it: the chunk is not verified, or
the reader comes to it for the first time and its local bytes do not pass. -/
def wants (r : Reader) (s : Site (Logged σ)) (i : Nat) : Bool :=
  decide (s.ledger.state i ≠ .verified) ||
    (!r.checked.contains i && !r.fetcher.tree.verifyLeaf i
      (r.fetcher.layout.cut (r.fetcher.localFile.content s.disk) i))

/-- A reader that checks local bytes and does not read ahead, at a site where nothing
fails. -/
structure Works (t : Tree) (file : LocalFile) (D : Bytes) (r : Reader) (s : Site (Logged σ)) :
    Prop where
  serves : r.fetcher.Serves t file
  recheck : r.config.recheckLocal = true
  ahead : r.config.readaheadChunks = 0
  sturdy : s.Sturdy file D.length
  honest : s.Honest t file D
  count : s.ledger.chunkCount = t.leafCount

theorem Works.brings {wanted : Nat → Bool} (h : Works t file D r s)
    (hb : Brings t file D wanted l s s') (hserves : r'.fetcher.Serves t file)
    (hconfig : r'.config = r.config) : Works t file D r' s' where
  serves := hserves
  recheck := hconfig ▸ h.recheck
  ahead := hconfig ▸ h.ahead
  sturdy := hb.sturdy
  honest := h.honest.of_run hb.run
  count := hb.chunkCount.trans h.count

theorem Works.count_lt (h : Works t file D r s) : s.ledger.chunkCount < UInt32.size := by
  rw [h.count]
  exact t.layout.chunkCount_lt

theorem wants_eq_true_iff (ht : Tree.ofContent D c = .ok t) (h : Works t file D r s)
    (hi : i < t.leafCount) : r.wants s i = true ↔ s.ledger.state i ≠ .verified ∨
      i ∉ r.checked ∧ ¬ t.Matches (file.content s.disk) i := by
  obtain ⟨q, hq⟩ := Layout.exists_range hi
  have hlen := h.sturdy.length.trans (Tree.length_of_content ht)
  have hmatch : t.Matches (file.content s.disk) i ↔ _ :=
    Site.matches_iff_of_slice hq (Layout.cut_of_range hq _) (Layout.length_cut hlen hq)
  unfold wants Fetcher.layout
  rw [h.serves.1, h.serves.2, hmatch]
  simp

/-- When the reader has come to a chunk, its verdict is good unless it has to be asked for. -/
theorem recheckOnce_works (ht : Tree.ofContent D c = .ok t) (h : Works t file D r s)
    (hi : i < t.leafCount) (hfree : s.ledger.state i ≠ .fetching) :
    ∃ r' s', r.recheckOnce i s = (.ok (), r', s') ∧ Works t file D r' s' ∧
      (∀ j, j ∈ r'.checked ↔ j ∈ [i] ∨ j ∈ r.checked) ∧ (∃ claims, Site.Run t file s claims s') ∧
      s'.ledger.chunkCount = s.ledger.chunkCount ∧
      (∀ j ∉ [i], s'.ledger.state j = s.ledger.state j) ∧
      file.content s'.disk = file.content s.disk ∧ s'.source = s.source ∧
      (s'.ledger.state i = .verified ↔ r.wants s i = false) ∧ s'.ledger.state i ≠ .fetching := by
  have hlayout : r.fetcher.layout = t.layout := by
    unfold Fetcher.layout
    rw [h.serves.1]
  unfold recheckOnce wants
  rw [h.recheck, hlayout, h.serves.1, h.serves.2]
  by_cases hmem : i ∈ r.checked
  · refine ⟨r, s, by simp [hmem], h, fun j => ?_, ⟨[], .nil s⟩, rfl, fun _ _ => rfl, rfl, rfl,
      by simp [hmem], hfree⟩
    rw [List.mem_singleton]
    constructor
    · exact .inr
    · rintro (rfl | hj)
      · exact hmem
      · exact hj
  · have hcontains : r.checked.contains i = false := by
      rw [← Bool.not_eq_true, List.contains_iff_mem]
      exact hmem
    obtain ⟨q, hq⟩ := Layout.exists_range hi
    obtain ⟨ok, s', hcheck, hrun, hs', hsource, hcontent, hcount, hstate⟩ :=
      Fetcher.recheck_sturdy h.serves (Tree.length_of_content ht) h.sturdy hq
    rw [hcontains, hcheck]
    refine ⟨{ r with checked := i :: r.checked }, s', rfl, ?_, fun j => ?_, hrun, hcount,
      fun j hj => ?_, hcontent, hsource, ?_, ?_⟩
    · exact ⟨h.serves, h.recheck, h.ahead, hs', h.honest.of_run hrun, hcount.trans h.count⟩
    · rw [List.mem_singleton]
      exact List.mem_cons
    · rw [hstate, if_neg fun hand => hj (List.mem_singleton.2 hand.1)]
    · rw [hstate]
      by_cases hv : s.ledger.state i = .verified
      · cases hpass : t.verifyLeaf i (t.layout.cut (file.content s.disk) i) <;> simp [hv]
      · simp [hv]
    · rw [hstate]
      split
      · exact (nomatch ·)
      · exact hfree

/-- Making sure of a chunk that is not in flight. -/
theorem ensureChunk_brings (ht : Tree.ofContent D c = .ok t) (h : Works t file D r s)
    (hi : i < t.leafCount) (hfree : s.ledger.state i ≠ .fetching) :
    ∃ r' s', r.ensureChunk i s = (.ok (), r', s') ∧ Works t file D r' s' ∧
      (∀ j, j ∈ r'.checked ↔ j ∈ [i] ∨ j ∈ r.checked) ∧
      Brings t file D (r.wants s) [i] s s' := by
  obtain ⟨r₁, s₁, hcheck, hworks, hchecked, hrun, hcount, hstate, hcontent, hsource, hverified,
    hfree₁⟩ := recheckOnce_works ht h hi hfree
  have hconst : ∀ {b : Bool}, r.wants s i = b → ∀ j ∈ [i], b = r.wants s j := by
    intro b hb j hj
    rw [List.mem_singleton.1 hj, hb]
  unfold ensureChunk
  rw [hcheck]
  dsimp only
  cases hw : r.wants s i with
  | false =>
    obtain ⟨hensure, hbrings⟩ :=
      Fetcher.ensure_of_verified (t := t) (f := r₁.fetcher) hworks.sturdy (hverified.2 hw)
    rw [hensure]
    exact ⟨r₁, s₁, rfl, hworks, hchecked,
      (hbrings.of_prelude hrun hcount hstate hcontent hsource).congr (hconst hw)⟩
  | true =>
    have hv : s₁.ledger.state i ≠ .verified := by
      intro hv
      rw [hverified.1 hv] at hw
      cases hw
    obtain ⟨q, hq⟩ := Layout.exists_range hi
    obtain ⟨s₂, hensure, hbrings⟩ := Fetcher.ensure_brings ht hworks.serves hq hworks.sturdy
      hworks.honest hworks.count hfree₁ hv
    have hworks₂ := hworks.brings hbrings hworks.serves rfl
    obtain ⟨f', s₃, hnote, hserves, hquiet⟩ := Fetcher.noteFetched_brings hworks₂.serves
      hworks₂.sturdy hworks₂.count_lt (fun _ => true)
    rw [hensure]
    dsimp only
    rw [hnote]
    have hall := (hbrings.append hquiet).of_prelude hrun hcount hstate hcontent hsource
    exact ⟨{ r₁ with fetcher := f' }, s₃, rfl, hworks₂.brings hquiet hserves rfl, hchecked,
      hall.congr (hconst hw)⟩

/-- What a read wants of other chunks does not change while it makes sure of some. -/
theorem wants_of_brings {wanted : Nat → Bool} (h : Works t file D r s) (h' : Works t file D r' s')
    (hchecked : ∀ j, j ∈ r'.checked ↔ j ∈ l ∨ j ∈ r.checked) (hb : Brings t file D wanted l s s')
    (hi : i ∉ l) : r'.wants s' i = r.wants s i := by
  have hcut := hb.cut i
  rw [if_neg fun hand => hi hand.1] at hcut
  have hstate := hb.state i
  rw [if_neg hi] at hstate
  have hcontains : r'.checked.contains i = r.checked.contains i := by
    rw [Bool.eq_iff_iff, List.contains_iff_mem, List.contains_iff_mem, hchecked]
    simp [hi]
  unfold wants Fetcher.layout
  rw [hstate, hcontains, h.serves.1, h.serves.2, h'.serves.1, h'.serves.2, hcut]

/-- Making sure of some chunks of which none is in flight. -/
theorem ensureChunks_brings (ht : Tree.ofContent D c = .ok t) (l : List Nat)
    (h : Works t file D r s) (hl : l.Nodup) (hin : ∀ i ∈ l, i < t.leafCount)
    (hfree : ∀ i ∈ l, s.ledger.state i ≠ .fetching) :
    ∃ r' s', ensureChunks l r s = (.ok (), r', s') ∧ Works t file D r' s' ∧
      (∀ j, j ∈ r'.checked ↔ j ∈ l ∨ j ∈ r.checked) ∧ Brings t file D (r.wants s) l s s' := by
  induction l generalizing r s with
  | nil => exact ⟨r, s, rfl, h, fun j => by simp, .refl h.sturdy⟩
  | cons i rest ih =>
    rw [List.forall_mem_cons] at hin hfree
    obtain ⟨hnot, hrest⟩ := List.nodup_cons.1 hl
    obtain ⟨r₁, s₁, hensure, hworks, hchecked, hbrings⟩ := ensureChunk_brings ht h hin.1 hfree.1
    have hother : ∀ j ∈ rest, j ∉ [i] := by
      intro j hj hji
      exact hnot (List.mem_singleton.1 hji ▸ hj)
    have hfree₁ : ∀ j ∈ rest, s₁.ledger.state j ≠ .fetching := by
      intro j hj
      rw [hbrings.state, if_neg (hother j hj)]
      exact hfree.2 j hj
    obtain ⟨r₂, s₂, hensures, hworks₂, hchecked₂, hbrings₂⟩ := ih hworks hrest hin.2 hfree₁
    have hsame : ∀ j ∈ rest, r₁.wants s₁ j = r.wants s j :=
      fun j hj => wants_of_brings h hworks hchecked hbrings (hother j hj)
    refine ⟨r₂, s₂, ?_, hworks₂, fun j => ?_, hbrings.append (hbrings₂.congr hsame)⟩
    · unfold ensureChunks
      rw [hensure]
      exact hensures
    · rw [hchecked₂, hchecked, List.mem_singleton, List.mem_cons]
      constructor
      · rintro (hj | hj | hj)
        · exact .inl (.inr hj)
        · exact .inl (.inl hj)
        · exact .inr hj
      · rintro ((hj | hj) | hj)
        · exact .inr (.inl hj)
        · exact .inl hj
        · exact .inr (.inr hj)

/-! ### One read -/

/-- Nothing is done about a read that goes past the end. -/
theorem read_outside (ht : Tree.ofContent D c = .ok t) (h : r.fetcher.Serves t file)
    {range : ByteRange} (hout : D.length < range.stop) :
    r.read range s = (.error (.rangeOutOfBounds range.stop D.length), r, s) := by
  have hsize : r.size = D.length := by
    unfold size Fetcher.layout
    rw [h.1, Tree.length_of_content ht]
  unfold read readRange checkBounds
  rw [hsize, if_pos hout]

/-- A read inside the content makes sure of the chunks that it overlaps, and gives out the local
bytes. -/
theorem read_brings (ht : Tree.ofContent D c = .ok t) (h : Works t file D r s) {range : ByteRange}
    (hinside : range.stop ≤ D.length)
    (hfree : ∀ i ∈ t.layout.overlapping range, s.ledger.state i ≠ .fetching) :
    ∃ r' s', r.read range s =
        (.ok ((file.content s'.disk).slice range.start range.size), r', s') ∧
      Works t file D r' s' ∧
      (∀ j, j ∈ r'.checked ↔ j ∈ t.layout.overlapping range ∨ j ∈ r.checked) ∧
      Brings t file D (r.wants s) (t.layout.overlapping range) s s' := by
  have hlayout : r.fetcher.layout = t.layout := by
    unfold Fetcher.layout
    rw [h.serves.1]
  have hbounds : r.checkBounds range = .ok () := by
    unfold checkBounds size
    rw [hlayout, ← Tree.length_of_content ht, if_neg (by omega)]
  by_cases hempty : range.isEmpty = true
  · have hnone := t.layout.overlapping_of_empty hempty
    have hsize := ByteRange.isEmpty_iff.1 hempty
    refine ⟨r, s, ?_, h, fun j => by simp [hnone], by rw [hnone]; exact .refl h.sturdy⟩
    unfold read readRange
    rw [hbounds, hsize, Bytes.slice_zero]
    simp [hempty, readAhead]
  · obtain ⟨r₁, s₁, hensure, hworks, hchecked, hbrings⟩ := ensureChunks_brings ht
      (t.layout.overlapping range) h (t.layout.nodup_overlapping range)
      (fun i hi => Layout.lt_of_mem_overlapping hi) hfree
    obtain ⟨d, hread, hs₂, hcontent⟩ := hworks.sturdy.readRange hinside
    have hlook : Site.Step t file s₁ [] { s₁ with disk := (file.readRange range s₁.disk).2 } :=
      .look s₁ range
    rw [hread] at hlook
    have hquiet : Site.Brings t file D (r.wants s) [] s₁ { s₁ with disk := d } :=
      Site.brings_of_disk hlook hs₂ hcontent
    have hall := hbrings.append hquiet
    rw [List.append_nil] at hall
    refine ⟨r₁, { s₁ with disk := d }, ?_, hworks.brings hquiet hworks.serves rfl, hchecked, hall⟩
    have hfill : r.fill range s =
        (.ok ((file.content d).slice range.start range.size), r₁, { s₁ with disk := d }) := by
      unfold fill
      rw [hlayout, hensure]
      dsimp only
      rw [hworks.serves.2, hread, hcontent]
    have hnote : r₁.noteRead range s₁.ledger = ([], r₁) := by
      unfold noteRead
      rw [if_pos hworks.ahead]
    unfold read readRange
    rw [hbounds]
    dsimp only
    rw [if_neg hempty, hfill]
    dsimp only
    rw [hnote]
    rfl

/-! ### One read after another -/

/-- What holds from one read to the next: every chunk is what it was in the beginning or a chunk
of the content; the chunks that the reader has come to are the content's and are verified; and
only for those the source was asked, once each. -/
structure Kept (t : Tree) (file : LocalFile) (D : Bytes) (s₀ : Site (Logged σ)) (r : Reader)
    (s : Site (Logged σ)) : Prop extends Works t file D r s where
  pieces : ∀ j, t.layout.cut (file.content s.disk) j = t.layout.cut D j ∨
    t.layout.cut (file.content s.disk) j = t.layout.cut (file.content s₀.disk) j
  held : ∀ j ∈ r.checked, s.ledger.state j = .verified ∧
    t.layout.cut (file.content s.disk) j = t.layout.cut D j
  fetching : ∀ j, s.ledger.state j = .fetching → s₀.ledger.state j = .fetching
  requests : ∃ made, s.source.requests = s₀.source.requests ++ made ∧ made.Nodup ∧
    ∀ q ∈ made, ∃ j ∈ r.checked, t.layout.chunkRange? j = some q

/-- The strings that must not collide: the chunks of the content and those of the local file in the
beginning. -/
def chunksOf (t : Tree) (D L : Bytes) : List Bytes :=
  Bytes.pieces t.layout.chunkSize D ++ Bytes.pieces t.layout.chunkSize L

/-- A chunk that a read does not have to ask for is the content's. -/
theorem Kept.eq_of_not_wanted (ht : Tree.ofContent D c = .ok t) (h : Kept t file D s₀ r s)
    (hs₀ : s₀.Sturdy file D.length)
    (hcoll : CollisionFree (chunksOf t D (file.content s₀.disk))) (hi : i < t.leafCount)
    (hw : r.wants s i = false) :
    t.layout.cut (file.content s.disk) i = t.layout.cut D i := by
  have hD := Tree.length_of_content ht
  unfold wants Fetcher.layout at hw
  rw [Bool.or_eq_false_iff, h.serves.1, h.serves.2] at hw
  by_cases hmem : i ∈ r.checked
  · exact (h.held i hmem).2
  · have hpass : t.verifyLeaf i (t.layout.cut (file.content s.disk) i) = true := by
      simpa [hmem] using hw.2
    have hown : t.layout.cut D i ∈ chunksOf t D (file.content s₀.disk) :=
      List.mem_append_left _ (Layout.cut_mem_pieces hD hi)
    refine Tree.eq_of_verifyLeaf ht hi hcoll ?_ hown hpass
    rcases h.pieces i with hpiece | hpiece
    · rw [hpiece]
      exact hown
    · rw [hpiece]
      exact List.mem_append_right _ (Layout.cut_mem_pieces (hs₀.length.trans hD) hi)

theorem Kept.brings (ht : Tree.ofContent D c = .ok t) (h : Kept t file D s₀ r s)
    (hs₀ : s₀.Sturdy file D.length) (hcoll : CollisionFree (chunksOf t D (file.content s₀.disk)))
    (hl : l.Nodup) (hin : ∀ i ∈ l, i < t.leafCount) (h' : Works t file D r' s')
    (hchecked : ∀ j, j ∈ r'.checked ↔ j ∈ l ∨ j ∈ r.checked)
    (hb : Brings t file D (r.wants s) l s s') : Kept t file D s₀ r' s' where
  toWorks := h'
  pieces j := by
    rw [hb.cut]
    by_cases hj : j ∈ l ∧ r.wants s j = true
    · rw [if_pos hj]
      exact .inl rfl
    · rw [if_neg hj]
      exact h.pieces j
  held j hj := by
    rw [hb.state, hb.cut]
    by_cases hjl : j ∈ l
    · rw [if_pos hjl]
      refine ⟨rfl, ?_⟩
      cases hw : r.wants s j with
      | true => rw [if_pos ⟨hjl, rfl⟩]
      | false =>
        rw [if_neg (fun hand => nomatch hand.2)]
        exact h.eq_of_not_wanted ht hs₀ hcoll (hin j hjl) hw
    · rw [if_neg hjl, if_neg fun hand => hjl hand.1]
      rcases (hchecked j).1 hj with hj | hj
      · exact absurd hj hjl
      · exact h.held j hj
  fetching j hj := by
    rw [hb.state] at hj
    by_cases hjl : j ∈ l
    · rw [if_pos hjl] at hj
      cases hj
    · rw [if_neg hjl] at hj
      exact h.fetching j hj
  requests := by
    obtain ⟨made, hmade, hnodup, hfor⟩ := h.requests
    refine ⟨made ++ (l.filter (r.wants s)).filterMap t.layout.chunkRange?, ?_, ?_, fun q hq => ?_⟩
    · rw [hb.requests, hmade, List.append_assoc]
    · rw [List.nodup_append]
      refine ⟨hnodup, ?_, fun q hq q' hq' => ?_⟩
      · -- Different chunks have different ranges.
        refine List.Pairwise.filterMap _ (fun i j hij q hq q' hq' => ?_) (hl.filter _)
        rintro rfl
        exact hij (Layout.chunkRange?_inj hq hq')
      · -- What was asked for before is not wanted any more.
        rintro rfl
        obtain ⟨j, hj, hrange⟩ := hfor q hq
        obtain ⟨j', hj', hrange'⟩ := List.mem_filterMap.1 hq'
        obtain rfl := Layout.chunkRange?_inj hrange hrange'
        have hw := (List.mem_filter.1 hj').2
        unfold wants at hw
        simp [(h.held j hj).1, hj] at hw
    · rcases List.mem_append.1 hq with hq | hq
      · obtain ⟨j, hj, hrange⟩ := hfor q hq
        exact ⟨j, (hchecked j).2 (.inr hj), hrange⟩
      · obtain ⟨j, hj, hrange⟩ := List.mem_filterMap.1 hq
        exact ⟨j, (hchecked j).2 (.inl (List.mem_filter.1 hj).1), hrange⟩

/-- The reader and the site after some reads. -/
def afterReads : List ByteRange → Reader → Site σ → Reader × Site σ
  | [], r, s => (r, s)
  | range :: rest, r, s => afterReads rest (r.read range s).2.1 (r.read range s).2.2

/-- One read after others. -/
theorem Kept.read (ht : Tree.ofContent D c = .ok t) (h : Kept t file D s₀ r s)
    (hs₀ : s₀.Sturdy file D.length) (hcoll : CollisionFree (chunksOf t D (file.content s₀.disk)))
    {range : ByteRange} (hfree : range.stop ≤ D.length →
      ∀ i ∈ t.layout.overlapping range, s₀.ledger.state i ≠ .fetching) :
    Kept t file D s₀ (r.read range s).2.1 (r.read range s).2.2 ∧
      (∀ j, j ∈ (r.read range s).2.1.checked ↔
        j ∈ r.checked ∨ range.stop ≤ D.length ∧ j ∈ t.layout.overlapping range) ∧
      (range.stop ≤ D.length →
        (r.read range s).1 = .ok (D.slice range.start range.size) ∧
        (r.read range s).2.2.source.requests = s.source.requests ++
          ((t.layout.overlapping range).filter (r.wants s)).filterMap t.layout.chunkRange?) := by
  by_cases hinside : range.stop ≤ D.length
  · have hfree' : ∀ i ∈ t.layout.overlapping range, s.ledger.state i ≠ .fetching :=
      fun i hi hf => hfree hinside i hi (h.fetching i hf)
    obtain ⟨r', s', hread, hworks, hchecked, hbrings⟩ :=
      read_brings ht h.toWorks hinside hfree'
    have hkept := h.brings ht hs₀ hcoll (t.layout.nodup_overlapping range)
      (fun i hi => Layout.lt_of_mem_overlapping hi) hworks hchecked hbrings
    have hslice : (file.content s'.disk).slice range.start range.size =
        D.slice range.start range.size := by
      apply Layout.slice_of_cut (l := t.layout)
      · rw [← Tree.length_of_content ht]
        exact hinside
      · exact fun i hi => (hkept.held i ((hchecked i).2 (.inl hi))).2
    rw [hread]
    refine ⟨hkept, fun j => ?_, fun _ => ⟨congrArg Except.ok hslice, hbrings.requests⟩⟩
    rw [hchecked]
    simp only [hinside, true_and]
    exact Or.comm
  · rw [read_outside ht h.serves (Nat.lt_of_not_le hinside)]
    exact ⟨h, fun j => by simp [hinside], fun hin => absurd hin hinside⟩

theorem Kept.afterReads (ht : Tree.ofContent D c = .ok t) (hs₀ : s₀.Sturdy file D.length)
    (hcoll : CollisionFree (chunksOf t D (file.content s₀.disk))) (done : List ByteRange)
    (h : Kept t file D s₀ r s) (hfree : ∀ q ∈ done, q.stop ≤ D.length →
      ∀ i ∈ t.layout.overlapping q, s₀.ledger.state i ≠ .fetching) :
    Kept t file D s₀ (afterReads done r s).1 (afterReads done r s).2 ∧
      ∀ j, j ∈ (afterReads done r s).1.checked ↔
        j ∈ r.checked ∨ ∃ q ∈ done, q.stop ≤ D.length ∧ j ∈ t.layout.overlapping q := by
  induction done generalizing r s with
  | nil => exact ⟨h, fun j => by simp [Reader.afterReads]⟩
  | cons q rest ih =>
    rw [List.forall_mem_cons] at hfree
    obtain ⟨hkept, hchecked, -⟩ := h.read ht hs₀ hcoll hfree.1
    obtain ⟨hkept', hchecked'⟩ := ih hkept hfree.2
    refine ⟨hkept', fun j => ?_⟩
    unfold Reader.afterReads
    rw [hchecked', hchecked]
    simp only [List.mem_cons, exists_eq_or_imp, or_assoc]

omit [RangeSource σ] in
theorem of_create {entry : Entry} {g : Ledger} {transfer : TransferConfig} {config : ReaderConfig}
    (h : Reader.create entry t g file transfer config = .ok r) :
    r.fetcher.Serves t file ∧ g.chunkCount = t.leafCount ∧ r.config = config ∧ r.checked = [] := by
  obtain ⟨-, hfits, rfl⟩ := create_eq_ok_iff.1 h
  exact ⟨⟨rfl, rfl⟩, hfits.chunks, rfl, rfl⟩

/-- **Reads are exact.** Let the tree be that of some content, the local file any file of its length
and the ledger any with as many chunks; let the source have the content, and let nothing fail. Then
after any reads, a read that goes past the end is refused and nothing is done, and any other read
gives out the range of the content. It asks, in ascending order and for its range each, for those
chunks in the range that are not verified, or that no read came to before and whose local bytes do
not pass; and no chunk is asked for twice. This needs that no chunk in the ranges is in flight in
the hands of somebody else, and that saving the ledger does not touch the local file. -/
theorem reads_exact (ht : Tree.ofContent D c = .ok t) {entry : Entry} {transfer : TransferConfig}
    {config : ReaderConfig}
    (hr : Reader.create entry t s.ledger file transfer config = .ok r)
    (hrecheck : config.recheckLocal = true) (hahead : config.readaheadChunks = 0)
    (hs : s.Sturdy file D.length) (hhonest : s.Honest t file D)
    (hcoll : CollisionFree (chunksOf t D (file.content s.disk)))
    (done : List ByteRange) (range : ByteRange)
    (hfree : ∀ q ∈ range :: done, q.stop ≤ D.length →
      ∀ i ∈ t.layout.overlapping q, s.ledger.state i ≠ .fetching) :
    let r' := (afterReads done r s).1
    let s' := (afterReads done r s).2
    (D.length < range.stop →
      r'.read range s' = (.error (.rangeOutOfBounds range.stop D.length), r', s')) ∧
    (range.stop ≤ D.length →
      (r'.read range s').1 = .ok (D.slice range.start range.size) ∧
      ∃ asked : List Nat,
        (r'.read range s').2.2.source.requests =
          s'.source.requests ++ asked.filterMap t.layout.chunkRange? ∧
        asked.Pairwise (· < ·) ∧
        ∀ i, i ∈ asked ↔ i ∈ t.layout.overlapping range ∧
          (s'.ledger.state i ≠ .verified ∨
            (∀ q ∈ done, q.stop ≤ D.length → i ∉ t.layout.overlapping q) ∧
              ¬ t.Matches (file.content s'.disk) i)) ∧
    ∃ made, (r'.read range s').2.2.source.requests = s.source.requests ++ made ∧ made.Nodup := by
  intro r' s'
  obtain ⟨hserves, hcount, hconfig, hchecked⟩ := of_create hr
  have hstart : Kept t file D s r s := {
    serves := hserves
    recheck := hconfig ▸ hrecheck
    ahead := hconfig ▸ hahead
    sturdy := hs
    honest := hhonest
    count := hcount
    pieces := fun _ => .inr rfl
    held := by simp [hchecked]
    fetching := fun _ hf => hf
    requests := ⟨[], (List.append_nil _).symm, .nil, List.forall_mem_nil _⟩ }
  rw [List.forall_mem_cons] at hfree
  obtain ⟨hkept, hcame⟩ := hstart.afterReads ht hs hcoll done hfree.2
  obtain ⟨hkept', -, hinside⟩ := hkept.read ht hs hcoll hfree.1
  refine ⟨fun hout => read_outside ht hkept.serves hout, fun hin => ?_, ?_⟩
  · obtain ⟨hgiven, hrequests⟩ := hinside hin
    refine ⟨hgiven, _, hrequests, (t.layout.sorted_overlapping range).filter _, fun i => ?_⟩
    rw [List.mem_filter]
    refine and_congr_right fun hi => ?_
    have hnew : i ∉ r'.checked ↔
        ∀ q ∈ done, q.stop ≤ D.length → i ∉ t.layout.overlapping q := by
      rw [hcame, hchecked]
      simp
    rw [← hnew]
    exact wants_eq_true_iff ht hkept.toWorks (Layout.lt_of_mem_overlapping hi)
  · obtain ⟨made, hmade, hnodup, -⟩ := hkept'.requests
    exact ⟨made, hmade, hnodup⟩

/-! ### The letters -/

/-- A scripted source without mishaps is honest. -/
theorem honest_of_plain {s : Site (Logged ScriptedSource)} (hs : s.source.inner = { bytes := D }) :
    s.Honest t file D := by
  intro claims s' hrun
  have hinner : s'.source.inner = { bytes := D } := by
    induction hrun with
    | nil => exact hs
    | @cons s₁ s₂ s₃ _ _ hstep _ ih =>
      apply ih
      cases hstep with
      | ask q limit =>
        show (ScriptedSource.answer s₁.source.inner s₁.disk q).2 = _
        rw [hs]
        rfl
      | claim | blame | write | settle | look | demote | persist => exact hs
  intro q limit _
  show (ScriptedSource.answer s'.source.inner s'.disk q).1 = _
  rw [hinner]
  rfl

/-- A site whose ledger calls the letters verified, though the copy is empty. -/
def doubted : Site (Logged ScriptedSource) where
  ledger := { chunkCount := 1, present := .oneSet, valid := .oneSet, path := some "s" }
  disk := (Session.emptyCopy "d").disk
  source := ⟨{ bytes := Session.letters }, []⟩

/-- A reader of the letters that does not read ahead and saves the ledger after each chunk. -/
def plainReader (p : Path) : Reader where
  fetcher := ⟨Session.lettersTree, Session.localCopy p, { persistEvery := 1 }, 0⟩
  config := { readaheadChunks := 0 }

/-- Some letters in the middle. -/
def middle : ByteRange := ⟨2, 5, by decide⟩

theorem tree_of_letters : Tree.ofContent Session.letters 8 = .ok Session.lettersTree := rfl

theorem create_plainReader (p : Path) {g : Ledger} (hg : g.chunkCount = 1) :
    Reader.create { remoteUrl := "", totalSize := 8 } Session.lettersTree g
      (Session.localCopy p) { persistEvery := 1 } { readaheadChunks := 0 } =
        .ok (plainReader p) := by
  obtain ⟨chunkCount, present, valid, inFlight, flights, path⟩ := g
  obtain rfl : chunkCount = 1 := hg
  rfl

theorem collisionFree_letters :
    CollisionFree (chunksOf Session.lettersTree Session.letters (List.replicate 8 0)) := by
  decide +kernel

/-- All of the letters are read after some of them were. -/
def readTwice : Except Error Bytes × Reader × Site (Logged ScriptedSource) :=
  let before := afterReads [middle] (plainReader "d") doubted
  before.1.read Session.allLetters before.2

/-- The letters are read although the ledger is wrong about them. -/
theorem reads_exact_letters : readTwice.1 = .ok Session.letters ∧
    ∃ made, readTwice.2.2.source.requests = doubted.source.requests ++ made ∧ made.Nodup := by
  have hs : doubted.Sturdy (Session.localCopy "d") Session.letters.length := {
    known := Nat.zero_lt_one
    shielded := by
      rintro p ⟨⟩ id -
      have hnone : doubted.disk.node? (temporaryFor "s") = none := by decide +kernel
      rw [hnone]
      exact (nomatch ·)
    writable := rfl
    fair := fun _ _ => rfl
    length := rfl
    room := by decide
    clear := by
      rintro p ⟨⟩
      exact {
        weather := fun _ _ => rfl
        room := by decide +kernel
        target := by decide +kernel
        temporary := by decide +kernel
        known := fun id hid => by
          have hnone : doubted.disk.node? (temporaryFor "s") = none := by decide +kernel
          rw [hnone] at hid
          cases hid } }
  have hidle : ∀ q ∈ [Session.allLetters, middle], q.stop ≤ Session.letters.length →
      ∀ i ∈ Session.lettersTree.layout.overlapping q, doubted.ledger.state i ≠ .fetching :=
    fun _ _ _ i _ => Ledger.state_ne_fetching_of_idle rfl i
  obtain ⟨-, hinside, hmade⟩ := reads_exact tree_of_letters
    (create_plainReader "d" (g := doubted.ledger) rfl) rfl rfl hs (honest_of_plain rfl)
    collisionFree_letters [middle] Session.allLetters hidle
  obtain ⟨hgiven, -⟩ := hinside (Nat.le_refl 8)
  have hall : Session.letters.slice Session.allLetters.start Session.allLetters.size =
      Session.letters := rfl
  rw [hall] at hgiven
  unfold readTwice
  dsimp only
  exact ⟨hgiven, hmade⟩

/-- Reads of readers that check local bytes and do not read ahead are exact, at those sites of a
kind on which every operation on files succeeds and the source has the content. -/
def ExactOn (kind : LocalFile → Site (Logged ScriptedSource) → Prop) : Prop :=
  ∀ (D : Bytes) (c : UInt32) (t : Tree) (file : LocalFile) (entry : Entry)
    (transfer : TransferConfig) (config : ReaderConfig) (r : Reader)
    (s : Site (Logged ScriptedSource)) (range : ByteRange),
    Tree.ofContent D c = .ok t → Reader.create entry t s.ledger file transfer config = .ok r →
    config.recheckLocal = true → config.readaheadChunks = 0 → s.disk.Fair →
    s.disk.Knows file.handle → file.handle.writable = true →
    (file.content s.disk).length = D.length → D.length < Disk.maxOffset →
    (∀ p, s.ledger.path = some p → s.disk.Clear p) → s.Honest t file D →
    CollisionFree (chunksOf t D (file.content s.disk)) → kind file s → range.stop ≤ D.length →
    (r.read range s).1 = .ok (D.slice range.start range.size)

/-- An empty copy of the letters under the name `p`, with the ledger `g`. -/
def unread (p : Path) (g : Ledger) : Site (Logged ScriptedSource) where
  ledger := g
  disk := (Session.emptyCopy p).disk
  source := ⟨{ bytes := Session.letters }, []⟩

/-- Nothing fails there if the ledger is in memory. -/
theorem unread_sturdy (p : Path) {g : Ledger} (hg : g.path = none) :
    (unread p g).Sturdy (Session.localCopy p) Session.letters.length where
  known := Nat.zero_lt_one
  shielded q hq := by
    rw [show (unread p g).ledger.path = none from hg] at hq
    cases hq
  writable := rfl
  fair _ _ := rfl
  length := rfl
  room := by decide
  clear q hq := by
    rw [show (unread p g).ledger.path = none from hg] at hq
    cases hq

/-- Somebody else is fetching the letters, and will fail. -/
def awaited : Site (Logged ScriptedSource) :=
  { unread "d" ((Ledger.empty 1).depart 0) with others := [(0, .error (.chunkCorrupt 0 1))] }

/-- The sidecar `s` is saved by way of `s.tmp`, which is the local file. -/
def aliased : Site (Logged ScriptedSource) :=
  unread "s.tmp" { Ledger.empty 1 with path := some "s" }

/-- The ledger can be saved there all the same. -/
theorem aliased_clear {p : Path} (hp : aliased.ledger.path = some p) : aliased.disk.Clear p := by
  cases hp
  exact {
    weather := fun _ _ => rfl
    room := by decide +kernel
    target := by decide +kernel
    temporary := by decide +kernel
    known := fun id hid => by
      have hnode : aliased.disk.node? (temporaryFor "s") = some (.file 0) := by decide +kernel
      rw [hnode] at hid
      cases hid
      exact Nat.zero_lt_one }

/-- A read waits for a chunk in flight and fails with its fetch; and saving the ledger may go over
the bytes that are about to be given out. So neither proviso of exact reads can be left out. -/
theorem reads_not_exact :
    ¬ ExactOn (fun file s => ∀ p, s.ledger.path = some p → s.disk.Shields p file.handle) ∧
      ¬ ExactOn (fun _ s => s.ledger.inFlight = []) := by
  refine ⟨fun h => ?_, fun h => ?_⟩
  · have hread := h Session.letters 8 Session.lettersTree (Session.localCopy "d") _ _ _
      (plainReader "d") awaited Session.allLetters tree_of_letters (create_plainReader "d" rfl)
      rfl rfl (fun _ _ _ => rfl) Nat.zero_lt_one rfl rfl (by decide) (nomatch ·, ·)
      (honest_of_plain rfl) collisionFree_letters (nomatch ·, ·) (Nat.le_refl 8)
    have hfails : ((plainReader "d").read Session.allLetters awaited).1.toOption = none := by
      decide +kernel
    rw [hread] at hfails
    cases hfails
  · have hread := h Session.letters 8 Session.lettersTree (Session.localCopy "s.tmp") _ _ _
      (plainReader "s.tmp") aliased Session.allLetters tree_of_letters
      (create_plainReader "s.tmp" rfl) rfl rfl (fun _ _ _ => rfl) Nat.zero_lt_one rfl rfl
      (by decide) (fun _ => aliased_clear) (honest_of_plain rfl) collisionFree_letters rfl
      (Nat.le_refl 8)
    have hwrong : ((plainReader "s.tmp").read Session.allLetters aliased).1.toOption =
        some (Bytes.ofText Ledger.magic) := by decide +kernel
    rw [hread] at hwrong
    exact absurd hwrong (by decide +kernel)

end Reader

end VerifiedCopy
