/-
# How much a crash can lose

The sidecar holds an older ledger than the one in memory. Every fetched chunk is counted,
and when `persistEvery` chunks have been counted the ledger is saved; a flush saves it at
once. So what is verified in the ledger and not in the sidecar are chunks that were counted
since the count last started again, or that are still to be counted, unless somebody is
about to save the ledger (`Team.Sound`).

This is kept by every move of every worker, because a move changes one chunk at most and
only a ticket that is used up as good makes a chunk verified (`Duty.Effect`). A verdict
that is taken back is missing in the ledger and not in the sidecar, and the chunk is
counted again when it is fetched again.

Key definitions: `Ledger.unsaved`, `countedSince`, `Fetcher.Works`, `Duty.Effect`,
`Team.Sound`.
Key theorems: `act_effect`, `Sound.turn`, `Sound.turns`, `losses_bounded`.
-/
import Mathlib.Data.Finset.Card
import Mathlib.Data.Finset.Range
import VerifiedCopy.Proofs.Team

namespace VerifiedCopy

variable {σ : Type} {p : Path} {n : Nat}

/-! ### Verdicts that are not saved -/

namespace Ledger

variable {g g' g'' : Ledger} {i j : Nat}

/-- The number of chunks that are verified in `g` and not in `g'`. -/
def unsaved (g g' : Ledger) : Nat :=
  ((Finset.range g.chunkCount).filter
    fun i => g.state i = .verified ∧ g'.state i ≠ .verified).card

theorem unsaved_le (hcount : g'.chunkCount = g.chunkCount)
    (h : ∀ j, g'.state j = .verified → g.state j = .verified) :
    g'.unsaved g'' ≤ g.unsaved g'' := by
  refine Finset.card_le_card fun j hj => ?_
  rw [Finset.mem_filter, hcount] at hj
  rw [Finset.mem_filter]
  exact ⟨hj.1, h j hj.2.1, hj.2.2⟩

theorem unsaved_le_succ (hcount : g'.chunkCount = g.chunkCount)
    (h : ∀ j, g'.state j = .verified → g.state j = .verified ∨ j = i) :
    g'.unsaved g'' ≤ g.unsaved g'' + 1 := by
  refine le_trans (Finset.card_le_card fun j hj => ?_) (Finset.card_insert_le i _)
  rw [Finset.mem_filter, hcount] at hj
  rw [Finset.mem_insert, Finset.mem_filter]
  rcases h j hj.2.1 with hv | rfl
  · exact .inr ⟨hj.1, hv, hj.2.2⟩
  · exact .inl rfl

theorem unsaved_eq_zero (h : ∀ j, g.state j = .verified → g'.state j = .verified) :
    g.unsaved g' = 0 := by
  unfold unsaved
  rw [Finset.card_eq_zero, Finset.filter_eq_empty_iff]
  rintro j - ⟨hv, hnot⟩
  exact hnot (h j hv)

/-! ### Changes to the ledger -/

/-- Only a chunk that is settled as good gets verified. -/
theorem verified_of_settle {o : Outcome} (h : (g.settle i o).2.state j = .verified) :
    g.state j = .verified ∨ o = .ok () ∧ j = i := by
  by_cases hi : g.state i = .fetching
  · rw [state_settle hi] at h
    by_cases hji : j = i
    · rw [if_pos hji] at h
      cases o with
      | ok u => exact .inr ⟨rfl, hji⟩
      | error e => cases h
    · rw [if_neg hji] at h
      exact .inl h
  · rw [settle_of_ne_fetching hi] at h
    exact .inl h

theorem Modest.settle_any (h : g.Modest) (i : Nat) (o : Outcome) : (g.settle i o).2.Modest := by
  by_cases hi : g.state i = .fetching
  · exact h.settle hi o
  · rw [settle_of_ne_fetching hi]
    exact h

theorem verified_of_recordInvalid (hi : i < g.chunkCount)
    (h : (Ticket.recordInvalid ⟨i⟩ g).state j = .verified) : g.state j = .verified := by
  by_cases hf : g.state i = .fetching
  · rw [state_recordInvalid hf] at h
    exact h
  · rw [state_recordInvalid_of_ne hi hf] at h
    split at h
    · cases h
    · exact h

theorem Modest.demote_any (h : g.Modest) (i : Nat) : (g.demote i).2.Modest := by
  by_cases hv : g.state i = .verified
  · exact h.demote hv
  · rw [demote_of_ne_verified hv]
    exact h

end Ledger

/-! ### What a move does -/

namespace Fetcher

variable {f f' : Fetcher} {s s' : Site σ} {new : Option Nat}

/-- Work that makes no chunk verified but `new`, and leaves the sidecar alone. -/
structure Works (f : Fetcher) (new : Option Nat) (s s' : Site σ) : Prop where
  chunkCount : s'.ledger.chunkCount = s.ledger.chunkCount
  path : s'.ledger.path = s.ledger.path
  modest : s.ledger.Modest → s'.ledger.Modest
  verified : ∀ j, s'.ledger.state j = .verified → s.ledger.state j = .verified ∨ new = some j
  disk : f.localFile.Touches s.disk s'.disk

/-- Work that does not concern the ledger. -/
theorem works_of_disk (hledger : s'.ledger = s.ledger)
    (hdisk : f.localFile.Touches s.disk s'.disk) : Works f none s s' := by
  refine ⟨by rw [hledger], by rw [hledger], fun hm => by rw [hledger]; exact hm, fun j hj => ?_,
    hdisk⟩
  rw [hledger] at hj
  exact .inl hj

theorem works_refl (f : Fetcher) (s : Site σ) : Works f none s s :=
  works_of_disk rfl (.refl _ _)

/-- Work on the ledger only. -/
theorem works_of_ledger {g : Ledger} (hcount : g.chunkCount = s.ledger.chunkCount)
    (hpath : g.path = s.ledger.path) (hmodest : s.ledger.Modest → g.Modest)
    (hverified : ∀ j, g.state j = .verified → s.ledger.state j = .verified ∨ new = some j) :
    Works f new s { s with ledger := g } :=
  ⟨hcount, hpath, hmodest, hverified, .refl _ _⟩

theorem works_takeBack (f : Fetcher) (i : Nat) (s : Site σ) : Works f none s (takeBack i s) :=
  works_of_ledger Ledger.demote_chunkCount Ledger.demote_path (·.demote_any i)
    fun _ hj => .inl (Ledger.verified_of_demote hj)

/-- The ledger is kept in the sidecar `p` beside the local file `n`, and can be saved at
any time. -/
structure Backs (p : Path) (n : Nat) (f : Fetcher) (s : Site σ) : Prop where
  file : f.localFile.handle.node = .file n
  path : s.ledger.path = some p
  small : s.ledger.chunkCount < UInt32.size
  modest : s.ledger.Modest
  backed : s.disk.Backed p n

theorem Backs.congr (h : Backs p n f s) (hf : f'.localFile = f.localFile) : Backs p n f' s :=
  ⟨hf ▸ h.file, h.path, h.small, h.modest, h.backed⟩

theorem Backs.works (h : Backs p n f s) (hw : Works f new s s') :
    Backs p n f s' ∧ s'.disk.content? p = s.disk.content? p := by
  obtain ⟨hbacked, hcontent⟩ := h.backed.of_touches h.file hw.disk
  refine ⟨⟨h.file, hw.path.trans h.path, ?_, hw.modest h.modest, hbacked⟩, hcontent⟩
  rw [hw.chunkCount]
  exact h.small

theorem Backs.persist (h : Backs p n f s) : Backs p n f s.persist.2 ∧
    s.persist.2.ledger = s.ledger ∧ s.persist.2.disk.content? p = some s.ledger.snapshot := by
  obtain ⟨-, hbacked, hcontent⟩ := h.backed.save (Ledger.length_snapshot_lt h.small)
  rw [Site.persist_of_path h.path]
  exact ⟨⟨h.file, h.path, h.small, h.modest, hbacked⟩, rfl, hcontent⟩

theorem deliver_touches (f : Fetcher) (i : Nat) (r : ByteRange) (b : Bytes) (s : Site σ) :
    (f.deliver i r b s).2.ledger = s.ledger ∧
      f.localFile.Touches s.disk (f.deliver i r b s).2.disk := by
  have hwrite := f.localFile.touches_writeDurable r.start b s.disk
  unfold deliver
  rcases hw : f.localFile.writeDurable r.start b s.disk with ⟨e | u, d⟩
  · rw [hw] at hwrite
    exact ⟨rfl, hwrite⟩
  · rw [hw] at hwrite
    exact ⟨rfl, hwrite⟩

theorem persistEvery_pos (f : Fetcher) : 0 < f.persistEvery :=
  Nat.lt_of_lt_of_le Nat.zero_lt_one (Nat.le_max_right _ _)

theorem count_eq_true (h : f.count = (true, f')) (hbelow : f.sincePersist < f.persistEvery) :
    f' = { f with sincePersist := 0 } ∧ f.sincePersist + 1 = f.persistEvery := by
  unfold count at h
  split at h
  · rename_i hdue
    exact ⟨(congrArg Prod.snd h).symm, Nat.le_antisymm hbelow hdue⟩
  · cases h

theorem count_eq_false (h : f.count = (false, f')) :
    f' = { f with sincePersist := f.sincePersist + 1 } ∧ f.sincePersist + 1 < f.persistEvery := by
  unfold count at h
  split at h
  · cases h
  · rename_i hless
    exact ⟨(congrArg Prod.snd h).symm, Nat.lt_of_not_le hless⟩

end Fetcher

namespace Duty

open Fetcher (Works works_of_disk works_of_ledger works_refl)

variable {f : Fetcher} {s : Site σ} {i : Nat}

/-- All that a move can come to. -/
inductive Effect (f : Fetcher) (s : Site σ) (duty : Duty) :
    Option Note → Duty → Fetcher → Site σ → Prop
  /-- No chunk gets verified, and none has to be counted or is counted. -/
  | quiet {duty' : Duty} {s' : Site σ} (hw : Works f none s s')
      (hcounting : duty'.isCounting = duty.isCounting) (hsaving : duty'.isSaving = duty.isSaving)
      (hchunk : ∀ i, duty'.chunk? = some i → i < s.ledger.chunkCount) :
      Effect f s duty none duty' f s'
  /-- A chunk is fetched, which has to be counted. -/
  | fetched {i : Nat} {s' : Site σ} (hw : Works f (some i) s s')
      (hcounting : duty.isCounting = false) (hsaving : duty.isSaving = false) :
      Effect f s duty none (.fetching .counting) f s'
  /-- A fetched chunk is counted. -/
  | counted {f' : Fetcher} (h : duty = .fetching .counting) (hf : f.count = (false, f')) :
      Effect f s duty (some (.counted false)) .idle f' s
  /-- A fetched chunk is counted, and it is time to save the ledger. -/
  | due {f' : Fetcher} (h : duty = .fetching .counting) (hf : f.count = (true, f')) :
      Effect f s duty (some (.counted true)) .saving f' s
  /-- The count starts again. -/
  | flushed (h : duty = .idle) :
      Effect f s duty (some .flushed) .saving { f with sincePersist := 0 } s
  /-- The ledger is saved. -/
  | saved (h : duty = .saving) : Effect f s duty (some .saved) .idle f s.persist.2

/-- Who holds no ticket has no chunk that could be out of range. -/
theorem no_chunk {duty : Duty} (h : duty.chunk? = none) :
    ∀ i, duty.chunk? = some i → i < s.ledger.chunkCount := by
  intro i hi
  rw [h] at hi
  cases hi

theorem effect_same {duty : Duty} (hchunk : ∀ i, duty.chunk? = some i → i < s.ledger.chunkCount) :
    Effect f s duty none duty f s :=
  .quiet (works_refl f s) rfl rfl hchunk

/-- The ticket of a chunk is used up. -/
theorem effect_closing {result : Except Error Nat} [RangeSource σ] :
    Effect f s (.fetching (.closing i result)) none
      (.fetching ((Stage.closing i result).go f s).1) ((Stage.closing i result).go f s).2.1
      ((Stage.closing i result).go f s).2.2 := by
  cases result with
  | error e =>
    refine .quiet (works_of_ledger Ledger.settle_chunkCount (Ledger.settle_path _)
      (·.settle_any i _) fun j hj => ?_) rfl rfl (no_chunk rfl)
    exact .inl ((Ledger.verified_of_settle hj).resolve_right fun h => by cases h.1)
  | ok m =>
    have hsettle : Ticket.verified ⟨i⟩ s.ledger = s.ledger.settle i (.ok ()) := rfl
    have hworks : Works f (some i) s { s with ledger := (s.ledger.settle i (.ok ())).2 } := by
      refine works_of_ledger Ledger.settle_chunkCount (Ledger.settle_path _)
        (·.settle_any i _) fun j hj => (Ledger.verified_of_settle hj).imp_right ?_
      exact fun h => congrArg some h.2.symm
    simp only [Stage.go]
    rcases hresult : Ticket.verified ⟨i⟩ s.ledger with ⟨e | u, g⟩
    · -- The chunk was not in flight, so nothing has changed.
      rw [hsettle] at hresult
      have hfree : s.ledger.state i ≠ .fetching := by
        intro hf
        have hok := Ledger.settle_of_fetching hf (.ok ())
        rw [hresult] at hok
        cases hok
      obtain rfl : g = s.ledger := by
        rw [← Ledger.settle_of_ne_fetching hfree (.ok ()), hresult]
      exact .quiet (works_refl f s) rfl rfl (no_chunk rfl)
    · rw [hsettle] at hresult
      rw [hresult] at hworks
      exact .fetched hworks rfl rfl

/-- A stage that is not counting makes its move. -/
theorem effect_stage [RangeSource σ] {st : Stage} (hst : st ≠ .counting)
    (hchunk : ∀ i, st.chunk? = some i → i < s.ledger.chunkCount) :
    Effect f s (.fetching st) none (.fetching (st.go f s).1) (st.go f s).2.1 (st.go f s).2.2 := by
  cases st with
  | idle => exact effect_same hchunk
  | counting => exact absurd rfl hst
  | asking i r left attempt => exact .quiet (works_of_disk rfl (.refl _ _)) rfl rfl hchunk
  | closing i result => exact effect_closing
  | joining flight =>
    simp only [Stage.go]
    split
    · exact .quiet (works_refl f s) rfl rfl (no_chunk rfl)
    · exact effect_same hchunk
  | judged i r left attempt j =>
    by_cases hgood : ∃ b, j = .good b
    · obtain ⟨b, rfl⟩ := hgood
      obtain ⟨hledger, hdisk⟩ := f.deliver_touches i r b s
      exact .quiet (works_of_disk hledger hdisk) rfl rfl hchunk
    · rw [Stage.go_judged (fun b hb => hgood ⟨b, hb⟩)]
      have hi : i < s.ledger.chunkCount := hchunk i rfl
      have hworks : Works f none s { s with ledger := Ticket.recordInvalid ⟨i⟩ s.ledger } :=
        works_of_ledger rfl rfl (·.recordInvalid hi)
          fun j hj => .inl (Ledger.verified_of_recordInvalid hi hj)
      dsimp only
      split
      · exact .quiet hworks rfl rfl hchunk
      · exact .quiet hworks rfl rfl hchunk

/-- An idle worker turns to a chunk. -/
theorem effect_take (f : Fetcher) (i : Nat) (s : Site σ) :
    Effect f s .idle none (.fetching (Stage.take f i s).1) f (Stage.take f i s).2 := by
  unfold Stage.take
  rcases hc : s.ledger.claim i with ⟨e | c, g⟩
  · exact effect_same (no_chunk rfl)
  · cases c with
    | verified =>
      obtain ⟨rfl, -⟩ := Ledger.claim_eq_verified hc
      exact effect_same (no_chunk rfl)
    | inFlight flight =>
      obtain ⟨rfl, -⟩ := Ledger.claim_eq_inFlight hc
      exact .quiet (works_refl f s) rfl rfl (no_chunk rfl)
    | owner ticket =>
      obtain ⟨rfl, hi, hf, hnew, rfl⟩ := Ledger.claim_eq_owner hc
      have hworks : Works f none s { s with ledger := s.ledger.depart i } := by
        refine works_of_ledger rfl rfl (·.depart hi hf hnew) fun j hj => .inl ?_
        rw [Ledger.state_depart hi] at hj
        split at hj
        · cases hj
        · exact hj
      dsimp only
      split
      · refine .quiet hworks rfl rfl fun j hj => ?_
        cases hj
        exact hi
      · refine .quiet hworks rfl rfl fun j hj => ?_
        cases hj
        exact hi

/-- The next move of a worker. -/
theorem effect_go [RangeSource σ] {duty : Duty}
    (hchunk : ∀ i, duty.chunk? = some i → i < s.ledger.chunkCount) :
    Effect f s duty (duty.go f s).1 (duty.go f s).2.1 (duty.go f s).2.2.1 (duty.go f s).2.2.2 := by
  cases duty with
  | objecting i => exact .quiet (Fetcher.works_takeBack f i s) rfl rfl (no_chunk rfl)
  | saving => exact .saved rfl
  | fetching st =>
    cases st with
    | counting =>
      unfold go
      rcases hf : f.count with ⟨_ | _, f'⟩
      · exact .counted rfl hf
      · exact .due rfl hf
    | idle | joining => exact effect_stage (nomatch ·) hchunk
    | asking | judged | closing => exact effect_stage (nomatch ·) hchunk

/-- An idle worker is taken. -/
theorem effect_begin [RangeSource σ] (f : Fetcher) (s : Site σ) (a : Act) :
    Effect f s .idle (idle.act f s a).1 (idle.act f s a).2.1 (idle.act f s a).2.2.1
      (idle.act f s a).2.2.2 := by
  cases a with
  | fetch i => exact effect_take f i s
  | flush => exact .flushed rfl
  | go => exact effect_same (no_chunk rfl)
  | read range =>
    exact .quiet (works_of_disk rfl (f.localFile.touches_readRange range s.disk)) rfl rfl
      (no_chunk rfl)
  | recheck i =>
    obtain ⟨hledger, -, hdisk⟩ := f.look_spec i s
    have hworks := works_of_disk hledger hdisk
    simp only [act]
    cases (f.look i s).1 with
    | true => exact .quiet hworks rfl rfl (no_chunk rfl)
    | false => exact .quiet hworks rfl rfl (no_chunk rfl)

/-- Whatever a worker does has one of the effects. -/
theorem act_effect [RangeSource σ] (a : Act) {duty : Duty}
    (hchunk : ∀ i, duty.chunk? = some i → i < s.ledger.chunkCount) :
    Effect f s duty (duty.act f s a).1 (duty.act f s a).2.1 (duty.act f s a).2.2.1
      (duty.act f s a).2.2.2 := by
  cases duty with
  | objecting i =>
    cases a with
    | go => exact effect_go hchunk
    | fetch | recheck | flush | read => exact effect_same hchunk
  | saving =>
    cases a with
    | go => exact effect_go hchunk
    | fetch | recheck | flush | read => exact effect_same hchunk
  | fetching st =>
    cases st with
    | idle => exact effect_begin f s a
    | asking | judged | closing | counting | joining =>
      cases a with
      | go => exact effect_go hchunk
      | fetch | recheck | flush | read => exact effect_same hchunk

end Duty

/-! ### The journal -/

/-- How many chunks have been counted since it was last time to save the ledger, or since
the last flush. The latest note comes first. -/
def countedSince : List Note → Nat
  | [] => 0
  | .counted true :: _ => 0
  | .flushed :: _ => 0
  | .counted false :: earlier => countedSince earlier + 1
  | .saved :: earlier => countedSince earlier

/-- It was time to save the ledger whenever `every` chunks had been counted, and then only. -/
def OnTime (every : Nat) (journal : List Note) : Prop :=
  ∀ due earlier, Note.counted due :: earlier <:+ journal →
    (due = true ↔ countedSince earlier + 1 = every)

theorem OnTime.cons {every : Nat} {journal : List Note} {note : Note} (h : OnTime every journal)
    (hnote : ∀ due, note = .counted due → (due = true ↔ countedSince journal + 1 = every)) :
    OnTime every (note :: journal) := by
  intro due earlier hsuffix
  rcases List.suffix_cons_iff.1 hsuffix with heq | hsuffix
  · obtain ⟨rfl, rfl⟩ := List.cons.inj heq
    exact hnote due rfl
  · exact h due earlier hsuffix

/-- How many elements of a list have a property after one of them was replaced. -/
theorem countP_set_add {α : Type} (q : α → Bool) {l : List α} {w : Nat} {a : α}
    (hw : l[w]? = some a) (b : α) :
    (l.set w b).countP q + (q a).toNat = l.countP q + (q b).toNat := by
  induction l generalizing w with
  | nil => cases hw
  | cons x l ih =>
    cases w with
    | zero =>
      obtain rfl : x = a := by simpa using hw
      cases hx : q x <;> cases hb : q b <;> simp [hx, hb]
    | succ w =>
      have hrest := ih (w := w) (by simpa using hw)
      rw [List.set_cons_succ, List.countP_cons, List.countP_cons]
      omega

/-! ### A team -/

namespace Team

open Fetcher (Backs Works)
open Duty (Effect)

variable {c : Team σ} {w : Nat} {duty duty' : Duty} {note : Option Note} {f : Fetcher} {s : Site σ}

/-- How many workers have fetched a chunk that is to be counted. -/
def counting (c : Team σ) : Nat := c.duties.countP Duty.isCounting

/-- How many workers are to save the ledger. -/
def saving (c : Team σ) : Nat := c.duties.countP Duty.isSaving

/-- The ledger can be saved. The sidecar lacks no more verdicts than were counted or are to
be counted, unless the ledger is to be saved; the count is as the journal says, and the
ledger is saved when it is time and at no other time. -/
structure Sound (p : Path) (n : Nat) (c : Team σ) : Prop extends Backs p n c.fetcher c.site where
  chunks : ∀ duty ∈ c.duties, ∀ i, duty.chunk? = some i → i < c.site.ledger.chunkCount
  sidecar : ∃ b g, c.site.disk.content? p = some b ∧ Ledger.restore b = .ok g ∧
    (c.saving = 0 → c.site.ledger.unsaved g ≤ c.fetcher.sincePersist + c.counting)
  below : c.fetcher.sincePersist < c.fetcher.persistEvery
  tally : c.fetcher.sincePersist = countedSince c.journal
  onTime : OnTime c.fetcher.persistEvery c.journal
  saves : c.journal.count .saved + c.saving =
    c.journal.count (.counted true) + c.journal.count .flushed

/-- The team after worker `w` has come to another duty. -/
def moved (c : Team σ) (w : Nat) (note : Option Note) (duty : Duty) (f : Fetcher) (s : Site σ) :
    Team σ :=
  { site := s, fetcher := f, duties := c.duties.set w duty, journal := note.toList ++ c.journal }

theorem counting_moved (hw : c.duties[w]? = some duty) :
    (c.moved w note duty' f s).counting + duty.isCounting.toNat =
      c.counting + duty'.isCounting.toNat :=
  countP_set_add _ hw duty'

theorem saving_moved (hw : c.duties[w]? = some duty) :
    (c.moved w note duty' f s).saving + duty.isSaving.toNat =
      c.saving + duty'.isSaving.toNat :=
  countP_set_add _ hw duty'

theorem count_moved (other : Note) {note : Note} :
    (c.moved w (some note) duty' f s).journal.count other =
      c.journal.count other + if note = other then 1 else 0 := by
  show (note :: c.journal).count other = _
  simp only [List.count_cons, beq_iff_eq]

/-- The workers' chunks exist as long as a new one does. -/
theorem Sound.chunks_moved (h : c.Sound p n)
    (hcount : s.ledger.chunkCount = c.site.ledger.chunkCount)
    (hchunk : ∀ i, duty'.chunk? = some i → i < c.site.ledger.chunkCount) :
    ∀ duty ∈ (c.moved w note duty' f s).duties, ∀ i, duty.chunk? = some i →
      i < s.ledger.chunkCount := by
  intro duty hduty i hi
  rw [hcount]
  rcases List.mem_or_eq_of_mem_set hduty with hmem | rfl
  · exact h.chunks duty hmem i hi
  · exact hchunk i hi

theorem Sound.quiet {s : Site σ} (h : c.Sound p n) (hw : c.duties[w]? = some duty)
    (hworks : Works c.fetcher none c.site s) (hc : duty'.isCounting = duty.isCounting)
    (hs : duty'.isSaving = duty.isSaving)
    (hchunk : ∀ i, duty'.chunk? = some i → i < c.site.ledger.chunkCount) :
    (c.moved w none duty' c.fetcher s).Sound p n := by
  have hcounting : (c.moved w none duty' c.fetcher s).counting + duty.isCounting.toNat =
      c.counting + duty'.isCounting.toNat := counting_moved hw
  have hsaving : (c.moved w none duty' c.fetcher s).saving + duty.isSaving.toNat =
      c.saving + duty'.isSaving.toNat := saving_moved hw
  rw [hc, Nat.add_right_cancel_iff] at hcounting
  rw [hs, Nat.add_right_cancel_iff] at hsaving
  obtain ⟨hbacks, hcontent⟩ := h.toBacks.works hworks
  obtain ⟨b, g, hb, hg, hbound⟩ := h.sidecar
  refine ⟨hbacks, h.chunks_moved hworks.chunkCount hchunk,
    ⟨b, g, hcontent.trans hb, hg, fun hzero => ?_⟩, h.below, h.tally, h.onTime, ?_⟩
  · rw [hsaving] at hzero
    rw [hcounting]
    refine (Ledger.unsaved_le hworks.chunkCount fun j hj => ?_).trans (hbound hzero)
    exact (hworks.verified j hj).resolve_right nofun
  · rw [hsaving]
    exact h.saves

/-- One more chunk may be missing in the sidecar, and one more is to be counted. -/
theorem Sound.fetched {i : Nat} {s : Site σ} (h : c.Sound p n) (hw : c.duties[w]? = some duty)
    (hworks : Works c.fetcher (some i) c.site s) (hc : duty.isCounting = false)
    (hs : duty.isSaving = false) :
    (c.moved w none (.fetching .counting) c.fetcher s).Sound p n := by
  have hcounting : (c.moved w none (.fetching .counting) c.fetcher s).counting +
      duty.isCounting.toNat = c.counting + 1 := counting_moved hw
  have hsaving : (c.moved w none (.fetching .counting) c.fetcher s).saving + duty.isSaving.toNat =
      c.saving := saving_moved hw
  rw [hc, Bool.toNat_false, Nat.add_zero] at hcounting
  rw [hs, Bool.toNat_false, Nat.add_zero] at hsaving
  obtain ⟨hbacks, hcontent⟩ := h.toBacks.works hworks
  obtain ⟨b, g, hb, hg, hbound⟩ := h.sidecar
  refine ⟨hbacks, h.chunks_moved hworks.chunkCount nofun,
    ⟨b, g, hcontent.trans hb, hg, fun hzero => ?_⟩, h.below, h.tally, h.onTime, ?_⟩
  · have hbound := hbound (hsaving.symm.trans hzero)
    have hone : s.ledger.unsaved g ≤ c.site.ledger.unsaved g + 1 :=
      Ledger.unsaved_le_succ hworks.chunkCount fun j hj =>
        (hworks.verified j hj).imp_right fun hi => (Option.some.inj hi).symm
    calc s.ledger.unsaved g ≤ c.site.ledger.unsaved g + 1 := hone
      _ ≤ c.fetcher.sincePersist + (c.counting + 1) := Nat.succ_le_succ hbound
      _ = _ := congrArg (c.fetcher.sincePersist + ·) hcounting.symm
  · exact (congrArg (c.journal.count .saved + ·) hsaving).trans h.saves

/-- A chunk is counted that was to be counted. -/
theorem Sound.counted {f : Fetcher} (h : c.Sound p n)
    (hw : c.duties[w]? = some (.fetching .counting)) (hf : c.fetcher.count = (false, f)) :
    (c.moved w (some (.counted false)) .idle f c.site).Sound p n := by
  have hcounting : (c.moved w (some (.counted false)) .idle f c.site).counting + 1 = c.counting :=
    counting_moved hw
  have hsaving : (c.moved w (some (.counted false)) .idle f c.site).saving = c.saving :=
    saving_moved hw
  obtain ⟨rfl, hless⟩ := Fetcher.count_eq_false hf
  obtain ⟨b, g, hb, hg, hbound⟩ := h.sidecar
  refine ⟨h.toBacks.congr rfl, h.chunks_moved rfl nofun, ⟨b, g, hb, hg, fun hzero => ?_⟩, hless,
    congrArg (· + 1) h.tally, h.onTime.cons fun due hdue => ?_, ?_⟩
  · have hbound := hbound (hsaving.symm.trans hzero)
    show c.site.ledger.unsaved g ≤ c.fetcher.sincePersist + 1 + _
    omega
  · obtain rfl : false = due := by simpa using hdue
    rw [← h.tally]
    simp only [Bool.false_eq_true, false_iff]
    exact Nat.ne_of_lt hless
  · have hsaves := h.saves
    simp only [count_moved, hsaving]
    simpa using hsaves

/-- The count starts again, and the ledger is to be saved. -/
theorem Sound.restarted {note : Note} (h : c.Sound p n) (hw : c.duties[w]? = some duty)
    (hs : duty.isSaving = false)
    (hnote : note = .flushed ∨
      note = .counted true ∧ c.fetcher.sincePersist + 1 = c.fetcher.persistEvery) :
    (c.moved w (some note) .saving { c.fetcher with sincePersist := 0 } c.site).Sound p n := by
  have hsaving :
      (c.moved w (some note) .saving { c.fetcher with sincePersist := 0 } c.site).saving +
        duty.isSaving.toNat = c.saving + 1 := saving_moved hw
  rw [hs, Bool.toNat_false, Nat.add_zero] at hsaving
  obtain ⟨b, g, hb, hg, -⟩ := h.sidecar
  refine ⟨h.toBacks.congr rfl, h.chunks_moved rfl nofun, ⟨b, g, hb, hg, fun hzero => ?_⟩,
    c.fetcher.persistEvery_pos, ?_, h.onTime.cons fun due hdue => ?_, ?_⟩
  · rw [hsaving] at hzero
    cases hzero
  · rcases hnote with rfl | ⟨rfl, -⟩ <;> rfl
  · rcases hnote with rfl | ⟨rfl, hevery⟩
    · cases hdue
    · obtain rfl : true = due := by simpa using hdue
      rw [← h.tally]
      exact ⟨fun _ => hevery, fun _ => rfl⟩
  · have hsaves := h.saves
    simp only [count_moved, hsaving]
    rcases hnote with rfl | ⟨rfl, -⟩
    · simp only [reduceCtorEq, ↓reduceIte]
      omega
    · simp only [reduceCtorEq, ↓reduceIte]
      omega

/-- Nothing is missing in the sidecar when the ledger was saved. -/
theorem Sound.saved (h : c.Sound p n) (hw : c.duties[w]? = some .saving) :
    (c.moved w (some .saved) .idle c.fetcher c.site.persist.2).Sound p n := by
  have hsaving : (c.moved w (some .saved) .idle c.fetcher c.site.persist.2).saving + 1 = c.saving :=
    saving_moved hw
  obtain ⟨hbacks, hledger, hcontent⟩ := h.toBacks.persist
  have hrestore := Ledger.restore_snapshot h.small
  have hnone : c.site.ledger.unsaved c.site.ledger.landed = 0 := by
    refine Ledger.unsaved_eq_zero fun j hj => (Ledger.state_landed ?_).trans hj
    rw [hj]
    exact nofun
  refine ⟨hbacks, h.chunks_moved (by rw [hledger]) nofun,
    ⟨_, _, hcontent, hrestore, fun _ => ?_⟩, h.below, h.tally, h.onTime.cons nofun, ?_⟩
  · show c.site.persist.2.ledger.unsaved _ ≤ _
    rw [hledger, hnone]
    exact Nat.zero_le _
  · have hsaves := h.saves
    simp only [count_moved, reduceCtorEq, ↓reduceIte]
    omega

/-- Every move keeps a team sound. -/
theorem Sound.moved (h : c.Sound p n) (hw : c.duties[w]? = some duty)
    (heffect : Effect c.fetcher c.site duty note duty' f s) :
    (c.moved w note duty' f s).Sound p n := by
  cases heffect with
  | quiet hworks hc hs hchunk => exact h.quiet hw hworks hc hs hchunk
  | fetched hworks hc hs => exact h.fetched hw hworks hc hs
  | counted hd hf => exact h.counted (hd ▸ hw) hf
  | due hd hf =>
    obtain ⟨rfl, hevery⟩ := Fetcher.count_eq_true hf h.below
    exact h.restarted hw (by rw [hd]; rfl) (.inr ⟨rfl, hevery⟩)
  | flushed hd => exact h.restarted hw (by rw [hd]; rfl) (.inl rfl)
  | saved hd => exact h.saved (hd ▸ hw)

theorem config_of_effect (heffect : Effect c.fetcher c.site duty note duty' f s) :
    f.config = c.fetcher.config := by
  cases heffect with
  | quiet | fetched | flushed | saved => rfl
  | counted _ hf =>
    obtain ⟨rfl, -⟩ := Fetcher.count_eq_false hf
    rfl
  | due _ hf =>
    unfold Fetcher.count at hf
    split at hf
    · rw [← (show _ = f from congrArg Prod.snd hf)]
    · cases hf

/-- The sidecar calls chunk `i` verified. -/
def Tells (p : Path) (c : Team σ) (i : Nat) : Prop :=
  ∃ b g, c.site.disk.content? p = some b ∧ Ledger.restore b = .ok g ∧ g.state i = .verified

/-- What a move makes the sidecar say is so in the ledger. -/
theorem Sound.tells_of_moved {i : Nat} (h : c.Sound p n)
    (heffect : Effect c.fetcher c.site duty note duty' f s)
    (ht : (c.moved w note duty' f s).Tells p i) :
    c.Tells p i ∨ c.site.ledger.state i = .verified := by
  obtain ⟨b, g, hb, hg, hv⟩ := ht
  cases heffect with
  | quiet hworks | fetched hworks =>
    obtain ⟨-, hcontent⟩ := h.toBacks.works hworks
    exact .inl ⟨b, g, hcontent.symm.trans hb, hg, hv⟩
  | counted | due | flushed => exact .inl ⟨b, g, hb, hg, hv⟩
  | saved =>
    obtain ⟨-, -, hcontent⟩ := h.toBacks.persist
    obtain rfl : c.site.ledger.snapshot = b := Option.some.inj (hcontent.symm.trans hb)
    obtain rfl : c.site.ledger.landed = g :=
      Except.ok.inj ((Ledger.restore_snapshot h.small).symm.trans hg)
    by_cases hf : c.site.ledger.state i = .fetching
    · exact absurd hv (h.modest.state_landed_ne_verified hf)
    · exact .inr ((Ledger.state_landed hf).symm.trans hv)

section Turns

variable [RangeSource σ]

/-- A turn is a move of some worker, or nothing happens. -/
theorem Sound.turn_cases (h : c.Sound p n) (w : Nat) (a : Act) :
    c.turn w a = c ∨ ∃ duty note duty' f s, c.duties[w]? = some duty ∧
      Effect c.fetcher c.site duty note duty' f s ∧ c.turn w a = c.moved w note duty' f s := by
  unfold turn
  cases hw : c.duties[w]? with
  | none => exact .inl rfl
  | some duty =>
    exact .inr ⟨duty, _, _, _, _, rfl,
      Duty.act_effect a (h.chunks duty (List.mem_of_getElem? hw)), rfl⟩

theorem Sound.turn (h : c.Sound p n) (w : Nat) (a : Act) :
    (c.turn w a).Sound p n ∧ (c.turn w a).fetcher.config = c.fetcher.config := by
  rcases h.turn_cases w a with heq | ⟨duty, note, duty', f, s, hw, heffect, heq⟩
  · rw [heq]
    exact ⟨h, rfl⟩
  · rw [heq]
    exact ⟨h.moved hw heffect, config_of_effect heffect⟩

/-- A sound team stays sound, in whatever order its workers take turns. -/
theorem Sound.turns (h : c.Sound p n) (l : List (Nat × Act)) :
    (turns l c).Sound p n ∧ (turns l c).fetcher.config = c.fetcher.config := by
  induction l generalizing c with
  | nil => exact ⟨h, rfl⟩
  | cons x l ih =>
    obtain ⟨hturn, hconfig⟩ := h.turn x.1 x.2
    obtain ⟨hturns, hconfigs⟩ := ih hturn
    exact ⟨hturns, hconfigs.trans hconfig⟩

/-- What the sidecar says it said before, or it was so in the ledger at some time. -/
theorem Sound.tells_of_turns {i : Nat} (h : c.Sound p n) (l : List (Nat × Act))
    (ht : (Team.turns l c).Tells p i) :
    c.Tells p i ∨
      ∃ before, before <+: l ∧ (Team.turns before c).site.ledger.state i = .verified := by
  induction l generalizing c with
  | nil => exact .inl ht
  | cons x l ih =>
    rcases ih (h.turn x.1 x.2).1 ht with ht | ⟨before, hbefore, hv⟩
    · rcases h.turn_cases x.1 x.2 with heq | ⟨_, _, _, _, _, _, heffect, heq⟩
      · rw [heq] at ht
        exact .inl ht
      · rw [heq] at ht
        exact (h.tells_of_moved heffect ht).imp_right fun hv => ⟨[], List.nil_prefix, hv⟩
    · exact .inr ⟨x :: before, List.cons_prefix_cons.2 ⟨rfl, hbefore⟩, hv⟩

end Turns

/-- Workers who have nothing to do yet. -/
def gather (workers : Nat) (f : Fetcher) (s : Site σ) : Team σ :=
  { site := s, fetcher := f, duties := List.replicate workers .idle }

/-- To begin with the sidecar holds the ledger, and nothing was counted. -/
theorem sound_gather (workers : Nat) (h : Fetcher.Settled p n (fun _ => False) f s)
    (hzero : f.sincePersist = 0) : (gather workers f s).Sound p n := by
  have hidle : ∀ duty ∈ (gather workers f s).duties, duty = .idle :=
    fun duty hduty => List.eq_of_mem_replicate hduty
  obtain ⟨b, g, hb, hg, hnow, -⟩ := h.held
  have hnone : s.ledger.unsaved g = 0 := by
    refine Ledger.unsaved_eq_zero fun i hi => ?_
    rcases hnow i hi with hpos | hv | hno
    · rw [hzero] at hpos
      exact absurd hpos (Nat.lt_irrefl 0)
    · exact hv
    · exact hno.elim
  have hsaving : (gather workers f s).saving = 0 := by
    refine List.countP_eq_zero.2 fun duty hduty => ?_
    rw [hidle duty hduty]
    exact nofun
  refine ⟨⟨h.file, h.path, h.small, fun i hi => absurd hi (h.idle i), h.backed⟩,
    fun duty hduty i hi => ?_, ⟨b, g, hb, hg, fun _ => hnone.trans_le (Nat.zero_le _)⟩, ?_, hzero,
    fun due earlier hsuffix => ?_, ?_⟩
  · rw [hidle duty hduty] at hi
    cases hi
  · show f.sincePersist < f.persistEvery
    rw [hzero]
    exact f.persistEvery_pos
  · cases List.suffix_nil.1 hsuffix
  · rw [hsaving]
    rfl

theorem verified_of_tells {i : Nat} (h : Fetcher.Settled p n (fun _ => False) f s) {workers : Nat}
    (ht : (gather workers f s).Tells p i) : s.ledger.state i = .verified := by
  obtain ⟨b, g, hb, hg, -, hthen⟩ := h.held
  obtain ⟨b', g', hb', hg', hv⟩ := ht
  obtain rfl : b = b' := Option.some.inj (hb.symm.trans hb')
  obtain rfl : g = g' := Except.ok.inj (hg.symm.trans hg')
  exact (hthen i hv).resolve_right id

/-- **A crash loses few chunks.** Let the ledger come from its sidecar, which is not the local file
and is not saved by way of it, and let every saving succeed. Then, however the workers of a fetcher
take turns, the count stays in range; the ledger is saved when `persistEvery` chunks have been
counted since the last such time or flush, and otherwise by flushes only; while nobody is to save
it, fewer chunks are verified in the ledger and not in the sidecar than that number and the fetched
chunks that are still to be counted make; and what is verified in the sidecar was so in the ledger.
Whatever is done with a reader or a job, one worker can have done. -/
theorem losses_bounded [RangeSource σ] {d d' : Disk} {count : Nat} {g : Ledger} {t : Tree}
    {file : LocalFile} {config : TransferConfig} {f : Fetcher}
    (hn : file.handle.node = .file n) (hb : d.Backed p n)
    (hopen : Ledger.openOrCreate p count d = (.ok g, d'))
    (hf : Fetcher.create t g file config = .ok f) (source : σ) :
    let s : Site σ := { ledger := g, disk := d', source }
    let every := max config.persistEvery.toNat 1
    (∀ (workers : Nat) (l : List (Nat × Act)),
      let c := turns l (gather workers f s)
      c.fetcher.sincePersist + 1 < UInt32.size ∧
      OnTime every c.journal ∧
      c.journal.count .saved + c.saving =
        c.journal.count (.counted true) + c.journal.count .flushed ∧
      ∃ b g', c.site.disk.content? p = some b ∧ Ledger.restore b = .ok g' ∧
        (c.saving = 0 → c.site.ledger.unsaved g' ≤ every - 1 + c.counting) ∧
        ∀ i, g'.state i = .verified → ∃ before, before <+: l ∧
          (turns before (gather workers f s)).site.ledger.state i = .verified) ∧
    ∀ (r : Reader) (uses : List Reader.Use), r.fetcher = f → ∃ l journal,
      turns l (gather 1 f s) =
        solo (Reader.useAll uses r s).2.1.fetcher (Reader.useAll uses r s).2.2 .idle journal := by
  intro s every
  obtain ⟨hfits, hmade⟩ := Fetcher.create_eq_ok_iff.1 hf
  have hfile : f.localFile = file := by rw [hmade]
  have hsmall : g.chunkCount < UInt32.size := by
    rw [hfits.chunks]
    exact t.layout.chunkCount_lt
  have hsettled : Fetcher.Settled p n (fun _ => False) f s :=
    open_filed (hfile ▸ hn) hb hopen hsmall source
  refine ⟨fun workers l => ?_, fun r uses hr => ?_⟩
  · have hstart := sound_gather workers hsettled (by rw [hmade])
    obtain ⟨hsound, hconfig⟩ := hstart.turns l
    have hevery : (turns l (gather workers f s)).fetcher.persistEvery = every := by
      unfold Fetcher.persistEvery
      rw [hconfig, show (gather workers f s).fetcher.config = config by rw [hmade]; rfl]
    have hbelow := hsound.below
    rw [hevery] at hbelow
    obtain ⟨b, g', hcontent, hrestore, hbound⟩ := hsound.sidecar
    refine ⟨?_, hevery ▸ hsound.onTime, hsound.saves, b, g', hcontent, hrestore, fun hzero => ?_,
      fun i hi => ?_⟩
    · have hrange : every < UInt32.size :=
        Nat.max_lt.2 ⟨config.persistEvery.toNat_lt, by decide⟩
      omega
    · have hbound := hbound hzero
      omega
    · refine (hstart.tells_of_turns l ⟨b, g', hcontent, hrestore, hi⟩).elim (fun ht => ?_) id
      exact ⟨[], List.nil_prefix, verified_of_tells hsettled ht⟩
  · obtain ⟨-, hturns⟩ := Fetcher.routine_alone.useAll uses r s hsettled.idle
    obtain ⟨l, journal, hl⟩ := hturns []
    rw [hr] at hl
    exact ⟨l, journal, hl⟩

open Reader (damagedDisk openedDisk backed_damagedDisk openOrCreate_damagedDisk lettersReader)

/-- One worker finds that a chunk was lost, and the other fetches it again. -/
def repair : List (Nat × Act) :=
  [(0, .recheck 0), (0, .go), (1, .fetch 0), (1, .go), (1, .go), (1, .go), (1, .go)]

/-- Two workers after they have repaired the letters. -/
def repaired : Team ScriptedSource :=
  turns repair (gather 2 lettersReader.fetcher (Reader.reopened { bytes := Session.letters }))

/-- The letters are counted, and the sidecar has called them verified all along. -/
theorem losses_bounded_repaired :
    (Session.localCopy "d").handle.node = .file 0 ∧ damagedDisk.Backed "s" 0 ∧
      repaired.journal = [.counted false] ∧ repaired.site.ledger.state 0 = .verified ∧
      ∃ b g', repaired.site.disk.content? "s" = some b ∧ Ledger.restore b = .ok g' ∧
        repaired.site.ledger.unsaved g' ≤ 15 := by
  have hcreate : Fetcher.create Session.lettersTree { Reader.allGood with path := some "s" }
      (Session.localCopy "d") {} = .ok lettersReader.fetcher := rfl
  have hrest : repaired.saving = 0 ∧ repaired.counting = 0 := by decide +kernel
  have hrepaired : repaired.journal = [.counted false] ∧
      repaired.site.ledger.state 0 = .verified := by
    decide +kernel
  obtain ⟨hteams, -⟩ := losses_bounded rfl backed_damagedDisk openOrCreate_damagedDisk hcreate
    ({ bytes := Session.letters } : ScriptedSource)
  obtain ⟨-, -, -, b, g', hcontent, hrestore, hbound, -⟩ := hteams 2 repair
  unfold repaired Reader.reopened at hrest hrepaired ⊢
  have hbound := hbound hrest.1
  rw [hrest.2] at hbound
  exact ⟨rfl, backed_damagedDisk, hrepaired.1, hrepaired.2, b, g', hcontent, hrestore, hbound⟩

/-- A ledger of two chunks that are verified. -/
def bothGood : Ledger := { chunkCount := 2, present := ⟨[3], rfl⟩, valid := ⟨[3], rfl⟩ }

/-- The tree of the sidecar of that ledger, in chunks of 12 bytes. -/
def sidecarTree : Tree :=
  (Tree.ofContent bothGood.snapshot 12).toOption.getD Session.lettersTree

/-- What is verified in the sidecar was so in the ledger, on those disks of a kind on which every
saving succeeds. -/
def HonestOn (kind : Disk → Path → Handle → Prop) : Prop :=
  ∀ (d d' : Disk) (p : Path) (count : Nat) (g : Ledger) (t : Tree) (file : LocalFile)
    (config : TransferConfig) (f : Fetcher), d.Clear p → d.Knows file.handle →
    kind d p file.handle → Ledger.openOrCreate p count d = (.ok g, d') →
    Fetcher.create t g file config = .ok f →
    ∀ (source : ScriptedSource) (workers : Nat) (l : List (Nat × Act)),
      let start := gather workers f { ledger := g, disk := d', source }
      (turns l start).saving = 0 → (turns l start).counting = 0 →
      ∀ i, (turns l start).Tells p i →
        ∃ before, before <+: l ∧ (turns before start).site.ledger.state i = .verified

/-- What fetches the bytes of a sidecar of two verified chunks. -/
def forger (p : Path) : Fetcher := ⟨sidecarTree, ⟨⟨p, .file 0, true⟩, 23, false⟩, {}, 0⟩

/-- A worker who uses that after the sidecar `s` of two absent chunks was read. -/
def forging (p : Path) (d : Disk) (l : List (Nat × Act)) : Team ScriptedSource :=
  turns l (gather 1 (forger p)
    { ledger := { Ledger.empty 2 with path := some "s" }, disk := { d with clock := 2 },
      source := { bytes := bothGood.snapshot } })

theorem not_honestOn {kind : Disk → Path → Handle → Prop} {q : Path} {d : Disk}
    {l : List (Nat × Act)} (hclear : d.Clear "s") (hknown : 0 < d.files.length)
    (hkind : kind d "s" ⟨q, .file 0, true⟩) (hhas : d.has "s" = true)
    (hload : d.load "s" = (.ok (Ledger.empty 2).snapshot, { d with clock := 2 }))
    (hrest : (forging q d l).saving = 0 ∧ (forging q d l).counting = 0)
    (hcontent : (forging q d l).site.disk.content? "s" = some bothGood.snapshot)
    (hnever : ∀ before ∈ l.inits, (forging q d before).site.ledger.state 0 ≠ .verified) :
    ¬ HonestOn kind := by
  intro h
  have hopen : Ledger.openOrCreate "s" 2 d =
      (.ok { Ledger.empty 2 with path := some "s" }, { d with clock := 2 }) := by
    have hrestore : Ledger.restore (Ledger.empty 2).snapshot = .ok (Ledger.empty 2) :=
      Ledger.restore_snapshot (g := Ledger.empty 2) (by decide)
    unfold Ledger.openOrCreate Ledger.ofSidecar
    rw [if_pos hhas, hload]
    dsimp only
    rw [hrestore]
    rfl
  have hfits : Fits {} sidecarTree { Ledger.empty 2 with path := some "s" }
      (forger q).localFile :=
    ⟨rfl, by decide +kernel, show 23 = sidecarTree.layout.totalSize by decide +kernel⟩
  have htells : (forging q d l).Tells "s" 0 :=
    ⟨_, bothGood, hcontent, Ledger.restore_snapshot (g := bothGood) (by decide), by decide⟩
  obtain ⟨before, hbefore, hv⟩ := h d _ "s" 2 _ _ (forger q).localFile _ (forger q) hclear hknown
    hkind hopen (Fetcher.create_eq_ok_iff.2 ⟨hfits, rfl⟩) { bytes := bothGood.snapshot } 1 l hrest.1
    hrest.2 0 htells
  exact hnever before ((List.mem_inits before l).2 hbefore) hv

/-- The sidecar is the local file. -/
def sharedDisk : Disk where
  names := [("s", .file 0)]
  files := [(Ledger.empty 2).snapshot]

/-- The local file is where the sidecar is written before it gets its name. -/
def borrowedDisk : Disk where
  names := [("s.tmp", .file 0), ("s", .file 1)]
  files := [List.replicate 23 0, (Ledger.empty 2).snapshot]

/-- If the sidecar is the local file, or was written by way of it, a fetched chunk can look like
verdicts on chunks that were never verified. -/
theorem verdicts_forged : ¬ HonestOn (fun d p h => d.Shields p h) ∧
    ¬ HonestOn (fun d p h => d.node? p ≠ some h.node) := by
  refine ⟨not_honestOn (q := "s") (d := sharedDisk)
      (l := [(0, .fetch 1), (0, .go), (0, .go), (0, .go), (0, .go)])
      ⟨fun _ _ => rfl, by decide, by decide, by decide, fun id hid => ?_⟩ (by decide)
      (fun id hid => ?_) (by decide) rfl (by decide +kernel) (by decide +kernel)
      (by decide +kernel),
    not_honestOn (q := "s.tmp") (d := borrowedDisk)
      (l := [(0, .flush), (0, .go), (0, .fetch 1), (0, .go), (0, .go), (0, .go), (0, .go)])
      ⟨fun _ _ => rfl, by decide, by decide, by decide, fun id hid => ?_⟩ (by decide) (by decide)
      (by decide) rfl (by decide +kernel) (by decide +kernel) (by decide +kernel)⟩
  · have hnone : sharedDisk.node? (temporaryFor "s") = none := by decide
    rw [hnone] at hid
    cases hid
  · have hnone : sharedDisk.node? (temporaryFor "s") = none := by decide
    rw [hnone]
    exact nofun
  · have hnode : borrowedDisk.node? (temporaryFor "s") = some (.file 0) := by decide
    rw [hnode] at hid
    cases hid
    decide

end Team
end VerifiedCopy
