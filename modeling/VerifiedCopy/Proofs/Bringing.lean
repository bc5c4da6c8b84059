/-
# Bringing chunks in from an honest source

When the source has the content (`Site.Honest`) and nothing fails (`Site.Sturdy`), the
first attempt to fetch a chunk brings it. Chunks of the content and those of the local
file are compared by cutting both along the layout (`Layout.cut`).

Making sure of some chunks, of which none is in flight, turns each of them into a
verified one; the source is asked, in their order, for those that are wanted, and they
become chunks of the content; and other chunks are left alone (`Site.Brings`). What
is done one after the other adds up (`Brings.append`).

Key definitions: `Layout.cut`, `Site.Honest`, `Site.Brings`.
Key theorems: `slice_of_cut`, `eq_of_verifyLeaf`, `fulfil_brings`, `ensure_brings`,
`recheck_sturdy`.
-/
import VerifiedCopy.Proofs.ReaderSoundness
import VerifiedCopy.Proofs.Sturdy

namespace VerifiedCopy

/-! ### Chunks of some bytes -/

namespace Layout

variable {l : Layout} {content a b piece : Bytes} {i j k : Nat} {r : ByteRange}

/-- Chunk `i` of some bytes. -/
def cut (l : Layout) (content : Bytes) (i : Nat) : Bytes :=
  match l.chunkRange? i with
  | some r => content.slice r.start r.size
  | none => []

theorem cut_of_range (hr : l.chunkRange? i = some r) (content : Bytes) :
    l.cut content i = content.slice r.start r.size := by
  unfold cut
  rw [hr]

/-- The end of the content cuts the last chunk off, whatever length is asked for. -/
theorem cut_eq_slice (hlen : content.length = l.totalSize) (hi : i < l.chunkCount) :
    l.cut content i = content.slice (i * l.chunkSize) l.chunkSize := by
  obtain ⟨r, hr⟩ := exists_range hi
  obtain ⟨-, hstart, hstop⟩ := chunkRange?_eq_some_iff.1 hr
  rw [cut_of_range hr]
  apply List.ext_getElem?
  intro k
  rw [Bytes.getElem?_slice, Bytes.getElem?_slice, hstart]
  by_cases hk : k < r.size
  · have hk' : k < l.chunkSize := by
      unfold ByteRange.size at hk
      omega
    rw [if_pos hk, if_pos hk']
  · rw [if_neg hk]
    by_cases hk' : k < l.chunkSize
    · have hout : content.length ≤ i * l.chunkSize + k := by
        unfold ByteRange.size at hk
        omega
      rw [if_pos hk', List.getElem?_eq_none hout]
    · rw [if_neg hk']

theorem cut_mem_pieces (hlen : content.length = l.totalSize) (hi : i < l.chunkCount) :
    l.cut content i ∈ Bytes.pieces l.chunkSize content := by
  have hcount : i < ceilDiv content.length l.chunkSize := by
    rw [hlen]
    exact hi
  rw [cut_eq_slice hlen hi]
  exact List.mem_of_getElem? (Bytes.getElem?_pieces l.chunkSize_pos content hcount)

theorem length_cut (hlen : content.length = l.totalSize) (hr : l.chunkRange? i = some r) :
    (l.cut content i).length = r.size := by
  have hstop := stop_le_of_range hr
  have hle := r.start_le_stop
  rw [cut_of_range hr, Bytes.length_slice, hlen]
  unfold ByteRange.size
  omega

/-- The chunk that is laid over the content in its place is then cut out of it. -/
theorem cut_overlay_self (hr : l.chunkRange? i = some r) (hp : piece.length = r.size) :
    l.cut (content.overlay r.start piece) i = piece := by
  rw [cut_of_range hr, ← hp]
  exact Bytes.slice_overlay content piece r.start

/-- The other chunks stay what they are. -/
theorem cut_overlay_ne (hlen : content.length = l.totalSize) (hr : l.chunkRange? i = some r)
    (hp : piece.length = r.size) (hij : j ≠ i) :
    l.cut (content.overlay r.start piece) j = l.cut content j := by
  unfold cut
  cases hq : l.chunkRange? j with
  | none => rfl
  | some q =>
    apply Bytes.slice_congr
    intro k hk hk'
    have hin : q.contains k = true := by
      rw [ByteRange.contains_iff]
      unfold ByteRange.size at hk'
      omega
    have hlt : k < content.length := by
      rw [hlen]
      exact ((contains_chunkRange?_iff hq).1 hin).1
    have hdisjoint := Site.disjoint_of_ne (Ne.symm hij) hr hq (Nat.le_of_eq hp) hin
    exact Bytes.getElem?_overlay hlt hdisjoint

/-- Two contents with the same chunk have the same bytes in its place. -/
theorem getElem?_of_cut (h : l.cut a i = l.cut b i) (hr : l.chunkRange? i = some r)
    (hk : r.contains k = true) : a[k]? = b[k]? := by
  rw [ByteRange.contains_iff] at hk
  have hsize : k - r.start < r.size := by
    unfold ByteRange.size
    omega
  have hget := congrArg (fun x : Bytes => x[k - r.start]?) h
  simp only [cut_of_range hr, Bytes.getElem?_slice, if_pos hsize] at hget
  have hpos : r.start + (k - r.start) = k := by omega
  rwa [hpos] at hget

/-- A range of two contents is the same if the chunks that it overlaps are. -/
theorem slice_of_cut (hinside : r.stop ≤ l.totalSize)
    (h : ∀ i ∈ l.overlapping r, l.cut a i = l.cut b i) :
    a.slice r.start r.size = b.slice r.start r.size := by
  apply Bytes.slice_congr
  intro k hk hk'
  have hin : r.contains k = true := by
    rw [ByteRange.contains_iff]
    unfold ByteRange.size at hk'
    omega
  have hlt : k < l.totalSize := by
    rw [ByteRange.contains_iff] at hin
    omega
  obtain ⟨q, hq, hkq⟩ := exists_chunkRange? hlt
  have hover := mem_overlapping_iff.2 ⟨k, hin, hlt, rfl⟩
  exact getElem?_of_cut (h _ hover) hq hkq

theorem nodup_overlapping (l : Layout) (r : ByteRange) : (l.overlapping r).Nodup :=
  List.nodup_range'

theorem sorted_overlapping (l : Layout) (r : ByteRange) :
    (l.overlapping r).Pairwise (· < ·) :=
  List.pairwise_lt_range'

end Layout

namespace Tree

variable {t : Tree} {D : Bytes} {c : UInt32} {i : Nat}

theorem length_of_content (ht : Tree.ofContent D c = .ok t) : D.length = t.layout.totalSize :=
  (Tree.ofContent_eq_ok_iff.1 ht).1.symm

/-- The chunks of the content pass as such. -/
theorem verifyLeaf_content (ht : Tree.ofContent D c = .ok t) (hi : i < t.leafCount) :
    t.verifyLeaf i (t.layout.cut D i) = true := by
  obtain ⟨r, hr⟩ := Layout.exists_range hi
  rw [Site.verifyLeaf_iff, (Session.leaf?_of_content ht hr).2,
    Layout.cut_eq_slice (length_of_content ht) hi]

/-- A chunk that passes is that of the content, unless digests collide. -/
theorem eq_of_verifyLeaf (ht : Tree.ofContent D c = .ok t) (hi : i < t.leafCount) {b : Bytes}
    {zs : List Bytes} (hfree : CollisionFree zs) (hb : b ∈ zs) (hD : t.layout.cut D i ∈ zs)
    (h : t.verifyLeaf i b = true) : b = t.layout.cut D i := by
  have hown := Site.verifyLeaf_iff.1 (verifyLeaf_content ht hi)
  have hother := Site.verifyLeaf_iff.1 h
  exact hfree b hb _ hD (Option.some.inj (hother.symm.trans hown))

end Tree

/-! ### Honest sources -/

namespace Site

variable {σ : Type} [RangeSource σ] {t : Tree} {file : LocalFile} {D : Bytes} {s s' s'' : Site σ}

/-- Whatever work is done from here on, every request for positions of the content is
answered with its bytes. -/
def Honest (t : Tree) (file : LocalFile) (D : Bytes) (s : Site σ) : Prop :=
  ∀ claims s', Run t file s claims s' → ∀ (r : ByteRange) (limit : Duration),
    r.stop ≤ D.length →
      (RangeSource.fetch s'.source s'.disk r limit).1 = .ok (D.slice r.start r.size)

theorem Honest.of_run (h : Honest t file D s) (hrun : ∃ claims, Run t file s claims s') :
    Honest t file D s' := by
  obtain ⟨claims, hrun⟩ := hrun
  intro claims' s'' hrun'
  exact h _ s'' (hrun.trans hrun')

/-! ### Bringing chunks in -/

section Brings

variable {σ : Type} [RangeSource σ] {s s' s'' : Site (Logged σ)} {l l' : List Nat}
  {wanted wanted' : Nat → Bool}

/-- From the first site to the second the chunks in `l` were made sure of: the wanted
ones were asked for, in their order, and are now those of the content; all of them are
verified; and other chunks were left alone. -/
structure Brings (t : Tree) (file : LocalFile) (D : Bytes) (wanted : Nat → Bool) (l : List Nat)
    (s s' : Site (Logged σ)) : Prop where
  run : ∃ claims, Run t file s claims s'
  sturdy : Sturdy file D.length s'
  chunkCount : s'.ledger.chunkCount = s.ledger.chunkCount
  state : ∀ j, s'.ledger.state j = if j ∈ l then .verified else s.ledger.state j
  cut : ∀ j, t.layout.cut (file.content s'.disk) j =
    if j ∈ l ∧ wanted j = true then t.layout.cut D j else t.layout.cut (file.content s.disk) j
  requests : s'.source.requests =
    s.source.requests ++ (l.filter wanted).filterMap t.layout.chunkRange?

theorem Brings.refl (hs : Sturdy file D.length s) : Brings t file D wanted [] s s where
  run := ⟨[], .nil s⟩
  sturdy := hs
  chunkCount := rfl
  state _ := rfl
  cut _ := by simp
  requests := (List.append_nil _).symm

/-- Which of them are wanted can be said in another way. -/
theorem Brings.congr (h : Brings t file D wanted l s s') (hw : ∀ i ∈ l, wanted i = wanted' i) :
    Brings t file D wanted' l s s' where
  run := h.run
  sturdy := h.sturdy
  chunkCount := h.chunkCount
  state := h.state
  cut j := by
    rw [h.cut]
    by_cases hj : j ∈ l
    · rw [hw j hj]
    · simp [hj]
  requests := by
    rw [h.requests, List.filter_congr hw]

/-- Work on the disk that leaves the content alone. -/
theorem brings_of_disk {d : Disk} (hstep : Step t file s [] { s with disk := d })
    (hs : Sturdy file D.length { s with disk := d })
    (hcontent : file.content d = file.content s.disk) :
    Brings t file D wanted [] s { s with disk := d } where
  run := ⟨_, .single hstep⟩
  sturdy := hs
  chunkCount := rfl
  state _ := rfl
  cut j := by simp [hcontent]
  requests := by simp

/-- Before that, something may have been done that changes neither the content nor the source, nor
the state of another chunk. -/
theorem Brings.of_prelude (h : Brings t file D wanted l s' s'')
    (hrun : ∃ claims, Run t file s claims s') (hcount : s'.ledger.chunkCount = s.ledger.chunkCount)
    (hstate : ∀ j ∉ l, s'.ledger.state j = s.ledger.state j)
    (hcontent : file.content s'.disk = file.content s.disk) (hsource : s'.source = s.source) :
    Brings t file D wanted l s s'' where
  run := by
    obtain ⟨claims, hrun⟩ := hrun
    obtain ⟨claims', hrun'⟩ := h.run
    exact ⟨_, hrun.trans hrun'⟩
  sturdy := h.sturdy
  chunkCount := h.chunkCount.trans hcount
  state j := by
    rw [h.state]
    by_cases hj : j ∈ l
    · rw [if_pos hj, if_pos hj]
    · rw [if_neg hj, if_neg hj, hstate j hj]
  cut j := by rw [h.cut, hcontent]
  requests := by rw [h.requests, hsource]

theorem Brings.append (h : Brings t file D wanted l s s') (h' : Brings t file D wanted l' s' s'') :
    Brings t file D wanted (l ++ l') s s'' where
  run := by
    obtain ⟨claims, hrun⟩ := h.run
    obtain ⟨claims', hrun'⟩ := h'.run
    exact ⟨_, hrun.trans hrun'⟩
  sturdy := h'.sturdy
  chunkCount := h'.chunkCount.trans h.chunkCount
  state j := by
    rw [h'.state, h.state]
    by_cases hj : j ∈ l <;> by_cases hj' : j ∈ l' <;> simp [hj, hj']
  cut j := by
    rw [h'.cut, h.cut]
    by_cases hj : j ∈ l <;> by_cases hj' : j ∈ l' <;> by_cases hw : wanted j = true <;>
      simp [hj, hj', hw]
  requests := by
    rw [h'.requests, h.requests, List.filter_append, List.filterMap_append, List.append_assoc]

end Brings
end Site

namespace Fetcher

open Site (Sturdy Honest Brings Run Step)

variable {σ : Type} [RangeSource σ] {t : Tree} {file : LocalFile} {f : Fetcher} {D : Bytes}
  {c : UInt32} {i : Nat} {r : ByteRange}

/-! ### Fetching one chunk -/

omit [RangeSource σ] in
theorem judge_content (ht : Tree.ofContent D c = .ok t) (h : f.Serves t file)
    (hr : t.layout.chunkRange? i = some r) :
    f.judge i r (.ok (t.layout.cut D i)) = .good (t.layout.cut D i) := by
  have hlen := Layout.length_cut (Tree.length_of_content ht) hr
  have hpass := Tree.verifyLeaf_content ht (Layout.chunkRange?_eq_some_iff.1 hr).1
  unfold judge
  dsimp only
  rw [h.1, if_neg (fun hne => hne hlen), if_pos hpass]

/-- The first attempt brings the chunk. -/
theorem attempts_content (ht : Tree.ofContent D c = .ok t) (h : f.Serves t file)
    (hr : t.layout.chunkRange? i = some r) {s : Site σ} (hh : s.Honest t file D) (left n : Nat) :
    f.attempts ⟨i⟩ r left n s = f.deliver i r (t.layout.cut D i)
      { s with source := (RangeSource.fetch s.source s.disk r f.config.fetchTimeout).2 } := by
  have hstop : r.stop ≤ D.length := by
    rw [Tree.length_of_content ht]
    exact Layout.stop_le_of_range hr
  have hanswer := hh [] s (.nil s) r f.config.fetchTimeout hstop
  rw [← Layout.cut_of_range hr] at hanswer
  have hjudge := judge_content ht h hr
  cases left with
  | zero =>
    unfold attempts
    dsimp only
    rw [hanswer, hjudge]
  | succ left =>
    unfold attempts
    dsimp only
    rw [hanswer, hjudge]

/-- The ticket of a chunk in flight is fulfilled. -/
theorem fulfil_brings (ht : Tree.ofContent D c = .ok t) (h : f.Serves t file)
    (hr : t.layout.chunkRange? i = some r) {s : Site (Logged σ)} (hs : s.Sturdy file D.length)
    (hh : s.Honest t file D) (hi : s.ledger.state i = .fetching) :
    ∃ s', f.fulfil ⟨i⟩ s = (.ok (.fetched r.size), s') ∧
      Brings t file D (fun _ => true) [i] s s' := by
  have hD := Tree.length_of_content ht
  have hlength := Layout.length_cut hD hr
  have hpass := Tree.verifyLeaf_content ht (Layout.chunkRange?_eq_some_iff.1 hr).1
  have hne := Layout.ne_nil_of_range hr hlength
  have hin : r.start + (t.layout.cut D i).length ≤ D.length := by
    rw [hD]
    exact Layout.write_inside hr hlength
  have hattempts := attempts_content ht h hr hh f.config.maxRetries.toNat 1
  have hask : Step t file s [] _ := .ask s r f.config.fetchTimeout
  have hlog : (RangeSource.fetch s.source s.disk r f.config.fetchTimeout).2.requests =
      s.source.requests ++ [r] := rfl
  generalize (RangeSource.fetch s.source s.disk r f.config.fetchTimeout).2 = x at *
  have hs₁ : Sturdy file D.length { s with source := x } := hs.of_source
  -- The bytes are written.
  obtain ⟨d, hwrite, hs₂, hcontent⟩ := hs₁.writeDurable hne hin
  have hstore : Step t file { s with source := x } [] _ := .write hi hr hlength hpass
  rw [hwrite] at hstore
  -- The chunk lands.
  have hmatch : t.Matches (file.content d) i := by
    rw [hcontent]
    exact Site.matches_overlay_self hr hlength hpass
  have hland :=
    Step.settle (t := t) (f := file) (s := { s with source := x, disk := d }) hi (.ok ())
    fun _ => hmatch
  have hs₃ := hs₂.of_ledger (g := (s.ledger.settle i (.ok ())).2) (Ledger.settle_path (.ok ()))
  refine ⟨{ s with ledger := (s.ledger.settle i (.ok ())).2, disk := d, source := x }, ?_, ?_⟩
  · have hlayout : f.layout.chunkRange? i = some r := by
      unfold layout
      rw [h.1]
      exact hr
    have hsettle := Ledger.settle_of_fetching hi (.ok ())
    unfold fulfil fetchVerified
    rw [hlayout]
    dsimp only
    rw [hattempts]
    unfold deliver
    rw [h.2, hwrite]
    dsimp only [Ticket.verified]
    rw [hsettle]
    rfl
  · exact {
      run := ⟨_, .cons hask (.cons hstore (.single hland))⟩
      sturdy := hs₃
      chunkCount := Ledger.settle_chunkCount
      state := fun j => by
        simp only [List.mem_singleton]
        exact Ledger.state_settle hi (.ok ()) j
      cut := fun j => by
        show t.layout.cut (file.content d) j = _
        simp only [List.mem_singleton, and_true]
        rw [hcontent]
        by_cases hj : j = i
        · rw [if_pos hj, hj]
          exact Layout.cut_overlay_self hr hlength
        · rw [if_neg hj]
          exact Layout.cut_overlay_ne (hs.length.trans hD) hr hlength hj
      requests := by simp [hlog, hr] }

/-- A chunk that is neither verified nor in flight is fetched. -/
theorem ensure_brings (ht : Tree.ofContent D c = .ok t) (h : f.Serves t file)
    (hr : t.layout.chunkRange? i = some r) {s : Site (Logged σ)} (hs : s.Sturdy file D.length)
    (hh : s.Honest t file D) (hcount : s.ledger.chunkCount = t.leafCount)
    (hfree : s.ledger.state i ≠ .fetching) (hv : s.ledger.state i ≠ .verified) :
    ∃ s', f.ensure i s = (.ok (.fetched r.size), s') ∧
      Brings t file D (fun _ => true) [i] s s' := by
  have hi : i < s.ledger.chunkCount := by
    rw [hcount]
    exact (Layout.chunkRange?_eq_some_iff.1 hr).1
  have hclaim : s.ledger.claim i = (.ok (.owner ⟨i⟩), s.ledger.depart i) := by
    unfold Ledger.claim
    rw [if_pos hi, Ledger.flight?_eq_none hi hfree, if_neg hv]
  have hfetching : (s.ledger.depart i).state i = .fetching :=
    (Ledger.state_depart hi i).trans (if_pos rfl)
  have hstep : Step t file s _ { s with ledger := s.ledger.depart i } := .claim hclaim
  obtain ⟨s', hfulfil, hbrings⟩ := fulfil_brings (s := { s with ledger := s.ledger.depart i })
    ht h hr (hs.of_ledger rfl) (hh.of_run ⟨_, .single hstep⟩) hfetching
  refine ⟨s', ?_, hbrings.of_prelude ⟨_, .single hstep⟩ rfl (fun j hj => ?_) rfl rfl⟩
  · unfold ensure
    rw [hclaim]
    exact hfulfil
  · have hne : j ≠ i := fun e => hj (List.mem_singleton.2 e)
    exact (Ledger.state_depart hi j).trans (if_neg hne)

/-- Nothing is done about a verified chunk. -/
theorem ensure_of_verified {s : Site (Logged σ)} (hs : s.Sturdy file D.length)
    (hv : s.ledger.state i = .verified) :
    f.ensure i s = (.ok .alreadyVerified, s) ∧ Brings t file D (fun _ => false) [i] s s := by
  obtain ⟨hi, hflight, -⟩ := Ledger.state_eq_verified_iff.1 hv
  have hclaim : s.ledger.claim i = (.ok .verified, s.ledger) := by
    unfold Ledger.claim
    rw [if_pos hi, hflight, if_pos hv]
  refine ⟨?_, ?_⟩
  · unfold ensure
    rw [hclaim]
    rfl
  · exact {
      run := ⟨[], .nil s⟩
      sturdy := hs
      chunkCount := rfl
      state := fun j => by
        simp only [List.mem_singleton]
        by_cases hj : j = i
        · rw [if_pos hj, hj, hv]
        · rw [if_neg hj]
      cut := fun j => by simp
      requests := by simp }

/-! ### Counting and checking -/

/-- Counting a chunk leaves the chunks alone, and saves the ledger if it is time. -/
theorem noteFetched_brings {s : Site (Logged σ)} (h : f.Serves t file)
    (hs : s.Sturdy file D.length) (hcount : s.ledger.chunkCount < UInt32.size)
    (wanted : Nat → Bool) : ∃ f' s', f.noteFetched s = (.ok (), f', s') ∧ f'.Serves t file ∧
      Brings t file D wanted [] s s' := by
  unfold noteFetched
  by_cases htime : f.persistEvery ≤ f.sincePersist + 1
  · obtain ⟨d, hpersist, hs', hcontent⟩ := hs.persist hcount
    have hstep : Step t file s [] s.persist.2 := .persist s
    rw [hpersist] at hstep
    rw [if_pos htime, hpersist]
    exact ⟨_, _, rfl, h, Site.brings_of_disk hstep hs' hcontent⟩
  · rw [if_neg htime]
    exact ⟨_, s, rfl, h, .refl hs⟩

/-- Checking a chunk again takes a good verdict back if the bytes do not deserve it, and
changes nothing else. -/
theorem recheck_sturdy (h : f.Serves t file) {s : Site σ}
    (hD : D.length = t.layout.totalSize) (hs : s.Sturdy file D.length)
    (hr : t.layout.chunkRange? i = some r) : ∃ ok s', f.recheck i s = (.ok ok, s') ∧
      (∃ claims, Run t file s claims s') ∧ s'.Sturdy file D.length ∧ s'.source = s.source ∧
      file.content s'.disk = file.content s.disk ∧
      s'.ledger.chunkCount = s.ledger.chunkCount ∧
      ∀ j, s'.ledger.state j =
        if j = i ∧ s.ledger.state i = .verified ∧
          t.verifyLeaf i (t.layout.cut (file.content s.disk) i) = false then .invalid
        else s.ledger.state j := by
  have hlayout : f.layout.chunkRange? i = some r := by
    unfold layout
    rw [h.1]
    exact hr
  have hstop : r.stop ≤ D.length := by
    rw [hD]
    exact Layout.stop_le_of_range hr
  have hlen := hs.length.trans hD
  unfold recheck
  by_cases hv : s.ledger.state i = .verified
  · obtain ⟨d, hread, hs', hcontent⟩ := hs.readRange hstop
    have hlook : Step t file s [] { s with disk := (file.readRange r s.disk).2 } := .look s r
    rw [hread] at hlook
    rw [if_neg (fun hne => hne hv), hlayout]
    dsimp only
    rw [h.2, hread]
    dsimp only
    rw [← Layout.cut_of_range hr, h.1]
    cases hpass : t.verifyLeaf i (t.layout.cut (file.content s.disk) i) with
    | true =>
      exact ⟨true, _, rfl, ⟨_, .single hlook⟩, hs', rfl, hcontent, rfl, fun j => by simp⟩
    | false =>
      have hbad : ¬ t.Matches (file.content d) i := by
        have hslice : t.layout.cut (file.content s.disk) i =
            (file.content d).slice r.start r.size := by
          rw [hcontent, Layout.cut_of_range hr]
        rw [Site.matches_iff_of_slice hr hslice (Layout.length_cut hlen hr), hpass]
        simp
      have hdemote := Step.demote (t := t) (f := file) (s := { s with disk := d }) hv hbad
      refine ⟨false, _, rfl, ⟨_, .cons hlook (.single hdemote)⟩, hs'.of_ledger Ledger.demote_path,
        rfl, hcontent, Ledger.demote_chunkCount, fun j => ?_⟩
      show (s.ledger.demote i).2.state j = _
      rw [Ledger.state_demote hv]
      simp [hv]
  · rw [if_pos hv]
    exact ⟨true, s, rfl, ⟨[], .nil s⟩, hs, rfl, rfl, rfl, fun j => by simp [hv]⟩

end Fetcher

end VerifiedCopy
