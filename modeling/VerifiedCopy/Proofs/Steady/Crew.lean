/-
# Workers on a steady site

Several workers on a steady site bring in what is foretold, in whatever order they take
turns. A worker that has an answer knows that it is the one everybody gets, and one that
has written a chunk knows that its bytes are those of the forecast (`Stage.Foreknows`);
no turn of another worker makes this wrong, since it changes bytes of another chunk. So
what the crew gains is what a single worker would have gained (`Crew.turns_gains`).

Key definitions: `Stage.Foreknows`, `Stage.Imparts`, `Crew.Foresees`.
Key theorems: `go_imparts`, `take_imparts`, `turns_gains`.
-/
import VerifiedCopy.Proofs.Crew
import VerifiedCopy.Proofs.Steady

namespace VerifiedCopy

open Site (Ready Calm Covered Gains Prepared Run Steady)

variable {σ : Type} {t : Tree} {file : LocalFile} {f f₀ : Fetcher}
  {answer : ByteRange → Except FetchError Bytes} {written : Nat → Bytes → Except Error Unit}
  {s s' : Site σ} {st st' : Stage} {i : Nat}

namespace Stage

/-- What a worker knows of a steady site at its stage: the answer that it has is that of the source,
and the bytes that it has written are those foretold. -/
def Foreknows (t : Tree) (file : LocalFile) (answer : ByteRange → Except FetchError Bytes)
    (written : Nat → Bytes → Except Error Unit) (f₀ : Fetcher) (s : Site σ) : Stage → Prop
  | judged i r _ _ j => j = f₀.judge i r (answer r)
  | closing i result => ∀ n, result = .ok n →
    f₀.forecast answer written i = .ok (t.layout.cut (file.content s.disk) i)
  | idle | asking _ _ _ _ | counting | joining _ => True

/-- A worker still knows what it knew while its chunk has the same bytes. -/
theorem Foreknows.of_same (h : st.Foreknows t file answer written f₀ s) (hst : st.Holds t file s)
    (hs : ∀ i, st.chunk? = some i → t.Inside (file.content s.disk) i →
      t.SameChunk i (file.content s'.disk) (file.content s.disk)) :
    st.Foreknows t file answer written f₀ s' := by
  cases st with
  | closing i result =>
    intro n hn
    rw [Layout.cut_of_sameChunk (hs i rfl (Site.inside_of_matches (hst.2 n hn)))]
    exact h n hn
  | judged i r left attempt j => exact h
  | idle | asking _ _ _ _ | counting | joining _ => exact trivial

/-- What a move of a worker does with what is foretold: the worker knows what it should afterwards,
the bytes of other chunks inside the local file stay, and a chunk that becomes verified has the
bytes foretold. -/
structure Imparts (t : Tree) (file : LocalFile) (answer : ByteRange → Except FetchError Bytes)
    (written : Nat → Bytes → Except Error Unit) (f₀ : Fetcher) (s : Site σ) (st : Stage)
    (s' : Site σ) (st' : Stage) : Prop where
  knows : st'.Foreknows t file answer written f₀ s'
  others : ∀ j, st.chunk? ≠ some j → t.Inside (file.content s.disk) j →
    t.SameChunk j (file.content s'.disk) (file.content s.disk)
  gained : ∀ j, s'.ledger.state j = .verified → s.ledger.state j = .verified ∨
    f₀.forecast answer written j = .ok (t.layout.cut (file.content s'.disk) j)

/-- Moves that change no byte, and after which nothing is newly verified. -/
theorem Imparts.of_quiet (hknows : st'.Foreknows t file answer written f₀ s')
    (hcontent : file.content s'.disk = file.content s.disk)
    (hstate : ∀ j, s'.ledger.state j = .verified → s.ledger.state j = .verified) :
    Imparts t file answer written f₀ s st s' st' where
  knows := hknows
  others j _ _ := hcontent ▸ .refl t j _
  gained j hj := .inl (hstate j hj)

variable [RangeSource σ]

/-- What is gained by a move was foretold. -/
theorem Imparts.gains (h : Imparts t file answer written f₀ s st s' st')
    (hrun : ∃ c, Run t file s c s') (hst : st.Holds t file s) (hs : Covered t file s) :
    Gains t file (f₀.forecast answer written) s s' := by
  refine ⟨hrun, fun j hj => (h.gained j hj.1).imp (fun hv => ⟨hv, ?_⟩) id⟩
  have hother : st.chunk? ≠ some j := fun hown => by
    have hfetching := hst.fetching hown
    rw [hv] at hfetching
    cases hfetching
  have hsame := h.others j hother (hs j hv)
  exact Site.matches_of_sameChunk hj.2 fun r k hr hk => (hsame r k hr hk).symm

/-- The answer that a worker gets is the one that everybody gets. -/
theorem imparts_ask (htwin : f₀.Twin f) (h : Steady t file answer written s) {r : ByteRange}
    {left attempt : Nat} (hst : (asking i r left attempt).Holds t file s) :
    Imparts t file answer written f₀ s (asking i r left attempt)
      ((asking i r left attempt).go f s).2.2 ((asking i r left attempt).go f s).1 := by
  obtain ⟨n, rfl⟩ := htwin
  refine .of_quiet ?_ rfl fun _ => id
  exact congrArg (f₀.judge i r) (h.answers [] s (.nil s) r _ (Layout.stop_le_of_range hst.2))

/-- Bytes that were judged good are those foretold, if they can be written. -/
theorem imparts_deliver (htwin : f₀.Twin f) (hf : f.Serves t file) (hs : Ready file s)
    (h : Steady t file answer written s) {r : ByteRange} {left attempt : Nat} {b : Bytes}
    (hst : (judged i r left attempt (.good b)).Holds t file s)
    (hknows : (judged i r left attempt (.good b)).Foreknows t file answer written f₀ s) :
    Imparts t file answer written f₀ s (judged i r left attempt (.good b)) (f.deliver i r b s).2
      (closing i (f.deliver i r b s).1) := by
  obtain ⟨-, hr, hgood⟩ := hst
  obtain ⟨hlen, -⟩ := hgood b rfl
  obtain ⟨hledger, n, hcontent⟩ := Fetcher.deliver_content hf hs i r b
  refine ⟨fun m hm => ?_, fun j hj hin => ?_, fun j hj => .inl (hledger ▸ hj)⟩
  · obtain ⟨hwrite, hdisk⟩ := Fetcher.deliver_eq_ok hm
    rw [hf.2] at hwrite hdisk
    rw [hdisk, LocalFile.content_writeDurable_of_ok hs.known (Layout.ne_nil_of_range hr hlen)
      hwrite, Layout.cut_overlay_self hr hlen]
    rw [h.writes [] s (.nil s) i r b hr hlen] at hwrite
    exact Fetcher.forecast_of_good (htwin.serves_iff.1 hf) hr hknows.symm hwrite
  · rw [hcontent]
    have hij : i ≠ j := fun e => hj (congrArg some e)
    refine Site.sameChunk_overlay hin hij hr ?_
    rw [← hlen]
    exact List.length_take_le' n b

/-- Only a chunk that is counted changes the fetcher. -/
theorem go_twin (h : f₀.Twin f) (st : Stage) (s : Site σ) : f₀.Twin (st.go f s).2.1 := by
  cases st with
  | judged i r left attempt j =>
    by_cases hgood : ∃ b, j = .good b
    · obtain ⟨b, rfl⟩ := hgood
      exact h
    · rw [go_judged (fun b hb => hgood ⟨b, hb⟩)]
      exact h
  | closing i result => cases result <;> exact h
  | counting => exact h.noteFetched s
  | idle | asking _ _ _ _ | joining _ => exact h

/-- The next move of a worker. -/
theorem go_imparts (htwin : f₀.Twin f) (hf : f.Serves t file) (hs : Ready file s)
    (h : Steady t file answer written s) (hst : st.Holds t file s)
    (hknows : st.Foreknows t file answer written f₀ s) :
    Imparts t file answer written f₀ s st (st.go f s).2.2 (st.go f s).1 := by
  cases st with
  | idle => exact .of_quiet trivial rfl fun _ => id
  | asking i r left attempt => exact imparts_ask htwin h hst
  | judged i r left attempt j =>
    by_cases hgood : ∃ b, j = .good b
    · obtain ⟨b, rfl⟩ := hgood
      exact imparts_deliver htwin hf hs h hst hknows
    · rw [go_judged (fun b hb => hgood ⟨b, hb⟩)]
      refine .of_quiet ?_ rfl fun j hj => (Ledger.state_recordInvalid hst.1 j).symm.trans hj
      dsimp only
      split
      · exact trivial
      · exact nofun
  | closing i result =>
    have hsettled : ∀ (o : Outcome) j, (s.ledger.settle i o).2.state j = .verified →
        s.ledger.state j = .verified ∨ j = i ∧ o = .ok () := by
      intro o j hj
      rw [Ledger.state_settle hst.1] at hj
      by_cases hji : j = i
      · rw [if_pos hji] at hj
        cases o with
        | ok u => exact .inr ⟨hji, rfl⟩
        | error e => cases hj
      · rw [if_neg hji] at hj
        exact .inl hj
    cases result with
    | ok n =>
      have hok := Ledger.settle_of_fetching hst.1 (.ok ())
      simp only [go, Ticket.verified, hok]
      refine ⟨trivial, fun j _ _ => .refl t j _, fun j hj => (hsettled _ j hj).imp id ?_⟩
      rintro ⟨rfl, -⟩
      exact hknows n rfl
    | error e =>
      refine .of_quiet trivial rfl fun j hj => (hsettled (.error e) j hj).elim id ?_
      rintro ⟨-, ⟨⟩⟩
  | counting =>
    simp only [go]
    unfold Fetcher.noteFetched
    split
    · exact .of_quiet trivial hs.persist.2 fun _ => id
    · exact .of_quiet trivial rfl fun _ => id
  | joining flight =>
    simp only [go]
    split <;> exact .of_quiet trivial rfl fun _ => id

omit [RangeSource σ] in
/-- A worker that turns to a chunk gains nothing. -/
theorem take_imparts (f : Fetcher) (i : Nat) (s : Site σ) :
    Imparts t file answer written f₀ s idle (take f i s).2 (take f i s).1 := by
  unfold take
  rcases hc : s.ledger.claim i with ⟨e | c, g⟩
  · exact .of_quiet trivial rfl fun _ => id
  · cases c with
    | verified =>
      obtain ⟨rfl, -⟩ := Ledger.claim_eq_verified hc
      exact .of_quiet trivial rfl fun _ => id
    | inFlight flight =>
      obtain ⟨rfl, -⟩ := Ledger.claim_eq_inFlight hc
      exact .of_quiet trivial rfl fun _ => id
    | owner ticket =>
      obtain ⟨rfl, hi, -, -, rfl⟩ := Ledger.claim_eq_owner hc
      have hstate : ∀ j, (s.ledger.depart i).state j = .verified →
          s.ledger.state j = .verified := by
        intro j hj
        rw [Ledger.state_depart hi] at hj
        by_cases hji : j = i
        · rw [if_pos hji] at hj
          cases hj
        · rwa [if_neg hji] at hj
      dsimp only
      split
      · exact .of_quiet nofun rfl hstate
      · exact .of_quiet trivial rfl hstate

end Stage

/-! ### A crew -/

namespace Crew

variable {c : Crew σ} {w : Nat} [RangeSource σ]

/-- A sound crew with twins of one fetcher on a steady site where verified chunks lie inside the
local file, whose workers know what they should. -/
structure Foresees (t : Tree) (file : LocalFile) (answer : ByteRange → Except FetchError Bytes)
    (written : Nat → Bytes → Except Error Unit) (f₀ : Fetcher) (c : Crew σ) : Prop extends
    Sound t file c where
  steady : Steady t file answer written c.site
  covered : Covered t file c.site
  twins : ∀ f ∈ c.fetchers, f₀.Twin f
  knows : ∀ (w k : Nat) (st : Stage), c.workers[w]? = some (k, st) →
    st.Foreknows t file answer written f₀ c.site

/-- A move of worker `w` leaves the others with what they know. -/
theorem Foresees.set (h : c.Foresees t file answer written f₀) {k : Nat}
    (hw : c.workers[w]? = some (k, st)) (hmove : st.Moves t file c.site s' st')
    (himparts : st.Imparts t file answer written f₀ c.site s' st') {fetchers : List Fetcher}
    (hf : ∀ f ∈ fetchers, f.Serves t file) (htwins : ∀ f ∈ fetchers, f₀.Twin f) :
    Foresees t file answer written f₀
      { site := s', fetchers, workers := c.workers.set w (k, st') } where
  toSound := h.toSound.set hw hmove hf
  steady := h.steady.of_run hmove.run
  covered := by
    obtain ⟨claims, hrun⟩ := hmove.run
    exact hrun.covered h.ready h.covered
  twins := htwins
  knows w' k' st₁ hw' := by
    have hlt : w < c.workers.length := (List.getElem?_eq_some_iff.1 hw).1
    by_cases hne : w = w'
    · subst hne
      rw [List.getElem?_set_self hlt] at hw'
      cases hw'
      exact himparts.knows
    · rw [List.getElem?_set_ne hne] at hw'
      refine (h.knows w' k' st₁ hw').of_same (h.holds w' k' st₁ hw') fun i hi =>
        himparts.others i fun hown => hne ?_
      exact h.alone w w' i (chunkOf_eq_some_iff.2 ⟨k, st, hw, hown⟩)
        (chunkOf_eq_some_iff.2 ⟨k', st₁, hw', hi⟩)

/-- A turn of a worker gains what was foretold if each of its moves does. -/
theorem Foresees.work (h : c.Foresees t file answer written f₀) (w : Nat)
    {move : Fetcher → Stage → Stage × Fetcher × Site σ}
    (hmove : ∀ f st, f₀.Twin f → f.Serves t file → st.Holds t file c.site →
      st.Foreknows t file answer written f₀ c.site →
      f₀.Twin (move f st).2.1 ∧ st.Moves t file c.site (move f st).2.2 (move f st).1 ∧
        st.Imparts t file answer written f₀ c.site (move f st).2.2 (move f st).1) :
    Foresees t file answer written f₀ (c.work w move) ∧
      Gains t file (f₀.forecast answer written) c.site (c.work w move).site := by
  unfold Crew.work
  split
  · exact ⟨h, .refl _⟩
  · rename_i k st hw
    split
    · exact ⟨h, .refl _⟩
    · rename_i f hk
      have hmem := List.mem_of_getElem? hk
      have hserves := h.serves f hmem
      obtain ⟨htwin, hmoves, himparts⟩ := hmove f st (h.twins f hmem) hserves (h.holds w k st hw)
        (h.knows w k st hw)
      refine ⟨h.set hw hmoves himparts (fun f' hf' => ?_) (fun f' hf' => ?_),
        himparts.gains hmoves.run (h.holds w k st hw) h.covered⟩
      · rcases List.mem_or_eq_of_mem_set hf' with hf' | rfl
        · exact h.serves f' hf'
        · exact htwin.serves_iff.2 ((h.twins f hmem).serves_iff.1 hserves)
      · rcases List.mem_or_eq_of_mem_set hf' with hf' | rfl
        · exact h.twins f' hf'
        · exact htwin

/-- One turn of a crew gains what was foretold, and nothing else. -/
theorem Foresees.turn (h : c.Foresees t file answer written f₀) (turn : Turn) :
    Foresees t file answer written f₀ (c.turn turn) ∧
      Gains t file (f₀.forecast answer written) c.site (c.turn turn).site := by
  cases turn with
  | take w i =>
    refine h.work w fun f st htwin hf hst hknows => ?_
    cases st with
    | idle => exact ⟨htwin, Stage.take_spec hf i c.site, Stage.take_imparts f i c.site⟩
    | asking _ _ _ _ | judged _ _ _ _ _ | closing _ _ | counting | joining _ =>
      exact ⟨htwin, .of_eq hst rfl, .of_quiet hknows rfl fun _ => id⟩
  | go w =>
    refine h.work w fun f st htwin hf hst hknows => ⟨Stage.go_twin htwin st c.site, ?_, ?_⟩
    · exact (Stage.go_spec hf h.ready hst).2
    · exact Stage.go_imparts htwin hf h.ready h.steady hst hknows
  | save =>
    obtain ⟨hsound, hrun⟩ := turn_spec h.toSound .save
    have hcontent := h.ready.persist.2
    refine ⟨⟨hsound, h.steady.of_run hrun, ?_, h.twins, fun w k st hw => ?_⟩,
      Site.gains_persist h.ready⟩
    · obtain ⟨claims, hrun⟩ := hrun
      exact hrun.covered h.ready h.covered
    refine (h.knows w k st hw).of_same (h.holds w k st hw) fun i _ _ => ?_
    show t.SameChunk i (file.content c.site.persist.2.disk) _
    rw [hcontent]
    exact .refl t i _

theorem Foresees.turns (turns : List Turn) (h : c.Foresees t file answer written f₀) :
    Foresees t file answer written f₀ (c.turns turns) ∧
      Gains t file (f₀.forecast answer written) c.site (c.turns turns).site := by
  induction turns generalizing c with
  | nil => exact ⟨h, .refl _⟩
  | cons turn rest ih =>
    obtain ⟨hturn, hgains⟩ := h.turn turn
    obtain ⟨hrest, hgains'⟩ := ih hturn
    exact ⟨hrest, hgains.trans hgains' h.ready⟩

/-- **What a crew gains was foretold.** Workers that all come to an end lead from a prepared site to
a prepared site, in whatever order they take turns, and gain nothing but what was foretold. -/
theorem turns_gains {fetchers : List Fetcher} (hf₀ : f₀.Serves t file)
    (htwins : ∀ f ∈ fetchers, f₀.Twin f) (ks : List Nat) (turns : List Turn)
    (hs : Prepared t file answer written s)
    (hrest : (Crew.turns turns ⟨s, fetchers, ks.map fun k => (k, .idle)⟩).atRest = true) :
    let c := Crew.turns turns ⟨s, fetchers, ks.map fun k => (k, .idle)⟩
    Prepared t file answer written c.site ∧ (∀ f ∈ c.fetchers, f₀.Twin f) ∧
      Gains t file (f₀.forecast answer written) s c.site := by
  intro c
  have hstart : Foresees t file answer written f₀
      ⟨s, fetchers, ks.map fun k => (k, Stage.idle)⟩ := {
    toSound := sound_start hs.toCalm (fun f hf => (htwins f hf).serves_iff.2 hf₀) ks
    steady := hs.steady
    covered := hs.covered
    twins := htwins
    knows := fun w k st hw => by
      obtain ⟨k', -, he⟩ := List.mem_map.1 (List.mem_of_getElem? hw)
      cases he
      exact trivial }
  obtain ⟨hend, hgains⟩ := hstart.turns turns
  exact ⟨hs.of_run hgains.run (hend.calm hrest), hend.twins, hgains⟩

end Crew
end VerifiedCopy
