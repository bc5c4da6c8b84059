/-
# What making sure of one chunk touches

Whoever makes sure of a chunk changes the state of that chunk and of no other, and
asks the source for the range of that chunk and for no other (`Site.Touches`). This
holds on any site, also if other chunks are in flight in the hands of others, and
whatever the disk does.

What a call to `ensure` can come to is said once (`Ensured`): the chunk does not
exist, it was verified before and nothing happens, somebody else brings it in, or
it is fetched, and then it is verified or invalid afterwards.

To check a chunk again is to look at its local bytes and then to take its verdict back,
if they do not pass (`recheck_eq_look`).

Key definitions: `Asks`, `Ledger.OnlyAt`, `Site.Touches`, `Fetcher.Keeps`, `Fetcher.Ensured`,
`Fetcher.look`.
Key theorems: `Asks.requests`, `attempts_keeps`, `ensure_cases`, `look_spec`.
-/
import VerifiedCopy.Proofs.Desk.Flights
import VerifiedCopy.Proofs.Fetching
import VerifiedCopy.Proofs.Saving

namespace VerifiedCopy

variable {σ : Type}

/-! ### Requests -/

section Requests

variable [RangeSource σ] {P Q : ByteRange → Prop} {x y z : σ}

/-- A source goes from one state to another while it is asked for ranges in `P`,
any number of times. -/
inductive Asks (P : ByteRange → Prop) (x : σ) : σ → Prop
  | none : Asks P x x
  | ask {y : σ} (h : Asks P x y) (d : Disk) {r : ByteRange} (hr : P r) (limit : Duration) :
      Asks P x (RangeSource.fetch y d r limit).2

theorem Asks.trans (h : Asks P x y) (h' : Asks P y z) : Asks P x z := by
  induction h' with
  | none => exact h
  | ask _ d hr limit ih => exact ih.ask d hr limit

theorem Asks.mono (h : Asks P x y) (hPQ : ∀ r, P r → Q r) : Asks Q x y := by
  induction h with
  | none => exact .none
  | ask _ d hr limit ih => exact ih.ask d (hPQ _ hr) limit

/-- What was asked for stands in the log of a source that keeps one. -/
theorem Asks.requests {x y : Logged σ} (h : Asks P x y) :
    ∃ rs, y.requests = x.requests ++ rs ∧ ∀ r ∈ rs, P r := by
  induction h with
  | none => exact ⟨[], (List.append_nil _).symm, List.forall_mem_nil _⟩
  | @ask y _ d r hr limit ih =>
    obtain ⟨rs, hrs, hP⟩ := ih
    refine ⟨rs ++ [r], ?_, ?_⟩
    · rw [← List.append_assoc, ← hrs]
      rfl
    · rw [List.forall_mem_append, List.forall_mem_singleton]
      exact ⟨hP, hr⟩

end Requests

/-! ### Changes to one chunk -/

namespace Ledger

variable {g g' g'' : Ledger} {i : Nat}

/-- Two ledgers differ in the state of chunk `i` at most, and flights are accounted
for in the second if they are in the first. -/
structure OnlyAt (i : Nat) (g g' : Ledger) : Prop where
  chunkCount : g'.chunkCount = g.chunkCount
  path : g'.path = g.path
  state : ∀ j, j ≠ i → g'.state j = g.state j
  tracks : g.Tracks → g'.Tracks

theorem OnlyAt.refl (g : Ledger) : g.OnlyAt i g :=
  ⟨rfl, rfl, fun _ _ => rfl, id⟩

theorem OnlyAt.trans (h : g.OnlyAt i g') (h' : g'.OnlyAt i g'') : g.OnlyAt i g'' where
  chunkCount := h'.chunkCount.trans h.chunkCount
  path := h'.path.trans h.path
  state j hj := (h'.state j hj).trans (h.state j hj)
  tracks ht := h'.tracks (h.tracks ht)

theorem onlyAt_depart (hi : i < g.chunkCount) (hf : g.flight? i = none) :
    g.OnlyAt i (g.depart i) where
  chunkCount := rfl
  path := rfl
  state j hj := (state_depart hi j).trans (if_neg hj)
  tracks ht := ht.departure hf (fun _ => flight?_depart) rfl

theorem onlyAt_recordInvalid (h : g.state i = .fetching) :
    g.OnlyAt i (Ticket.recordInvalid ⟨i⟩ g) where
  chunkCount := rfl
  path := rfl
  state j _ := state_recordInvalid h j
  tracks ht := ht.quiet (fun _ => rfl) rfl

theorem onlyAt_settle (h : g.state i = .fetching) (o : Outcome) :
    g.OnlyAt i (g.settle i o).2 where
  chunkCount := settle_chunkCount
  path := settle_path o
  state j hj := (state_settle h o j).trans (if_neg hj)
  tracks ht := by
    obtain ⟨hi, flight, hf⟩ := state_eq_fetching_iff.1 h
    exact ht.landing hf (fun _ => flight?_settle h o) (settle_flights hi hf o)

/-- The flight of a chunk that is settled is told the outcome. -/
theorem outcome?_settle {flight : FlightId} (ht : g.Tracks) (hi : i < g.chunkCount)
    (hf : g.flight? i = some flight) (o : Outcome) :
    (g.settle i o).2.outcome? flight = some o := by
  unfold outcome?
  rw [settle_flights hi hf, List.getElem?_set_self (ht.lt_length hf)]
  rfl

end Ledger

namespace Site

variable [RangeSource σ] {f : Fetcher} {i : Nat} {s s' s'' : Site σ}

/-- From the first site to the second, nothing but chunk `i` was worked on, and the
ledger was not saved. -/
structure Touches (f : Fetcher) (i : Nat) (s s' : Site σ) : Prop where
  ledger : s.ledger.OnlyAt i s'.ledger
  source : Asks (fun r => f.layout.chunkRange? i = some r) s.source s'.source
  disk : f.localFile.Touches s.disk s'.disk

theorem Touches.refl (s : Site σ) : Touches f i s s :=
  ⟨.refl _, .none, .refl _ _⟩

theorem Touches.trans (h : Touches f i s s') (h' : Touches f i s' s'') : Touches f i s s'' :=
  ⟨h.ledger.trans h'.ledger, h.source.trans h'.source, h.disk.trans h'.disk⟩

theorem touches_ledger {g : Ledger} (h : s.ledger.OnlyAt i g) :
    Touches f i s { s with ledger := g } :=
  ⟨h, .none, .refl _ _⟩

/-- Somebody else settles the chunk. -/
theorem touches_settleOther (h : s.ledger.state i = .fetching) :
    Touches f i s (s.settleOther i) :=
  ⟨Ledger.onlyAt_settle h _, .none, .refl _ _⟩

/-- Who waits for a chunk in flight is told the outcome that it was settled with. -/
theorem await_cases {flight : FlightId} (hi : i < s.ledger.chunkCount)
    (hf : s.ledger.flight? i = some flight) :
    Touches f i s (s.await i flight).2 ∧
      (s.ledger.Tracks → (s.await i flight).2.ledger.state i =
        Ledger.stateAfter (s.await i flight).1) := by
  have hs : s.ledger.state i = .fetching := Ledger.state_eq_fetching_iff.2 ⟨hi, flight, hf⟩
  unfold await
  cases hpublished : s.ledger.outcome? flight with
  | some o =>
    refine ⟨.refl s, fun ht => ?_⟩
    rw [ht.outcome?_eq_none hf] at hpublished
    cases hpublished
  | none =>
    refine ⟨touches_settleOther hs, fun ht => ?_⟩
    have htold : (s.settleOther i).ledger.outcome? flight = some (s.verdictOf i) :=
      Ledger.outcome?_settle ht hi hf _
    show (s.settleOther i).ledger.state i =
      Ledger.stateAfter (((s.settleOther i).ledger.outcome? flight).getD _)
    rw [htold, Option.getD_some]
    exact (Ledger.state_settle hs _ i).trans (if_pos rfl)

end Site

/-! ### Making sure of a chunk -/

namespace Fetcher

open Site (Touches)

variable [RangeSource σ] {f : Fetcher} {i : Nat} {s : Site σ}

/-- Nothing but chunk `i` was worked on, and it is in flight. -/
def Keeps (f : Fetcher) (i : Nat) (s s' : Site σ) : Prop :=
  Touches f i s s' ∧ s'.ledger.state i = .fetching

theorem Keeps.trans {s' s'' : Site σ} (h : Keeps f i s s') (h' : Keeps f i s' s'') :
    Keeps f i s s'' :=
  ⟨h.1.trans h'.1, h'.2⟩

theorem deliver_keeps (r : ByteRange) (b : Bytes) (hi : s.ledger.state i = .fetching) :
    Keeps f i s (f.deliver i r b s).2 := by
  have hwrite := f.localFile.touches_writeDurable r.start b s.disk
  unfold deliver
  rcases hw : f.localFile.writeDurable r.start b s.disk with ⟨e | u, d⟩
  · rw [hw] at hwrite
    exact ⟨⟨.refl _, .none, hwrite⟩, hi⟩
  · rw [hw] at hwrite
    exact ⟨⟨.refl _, .none, hwrite⟩, hi⟩

/-- The source is asked for a chunk in flight. -/
theorem ask_keeps {r : ByteRange} (hr : f.layout.chunkRange? i = some r)
    (hi : s.ledger.state i = .fetching) (limit : Duration) :
    Keeps f i s { s with source := (RangeSource.fetch s.source s.disk r limit).2 } :=
  ⟨⟨.refl _, Asks.none.ask s.disk hr limit, .refl _ _⟩, hi⟩

/-- A failed attempt is written down. -/
theorem blame_keeps (hi : s.ledger.state i = .fetching) :
    Keeps f i s { s with ledger := Ticket.recordInvalid ⟨i⟩ s.ledger } :=
  ⟨Site.touches_ledger (Ledger.onlyAt_recordInvalid hi), (Ledger.state_recordInvalid hi i).trans hi⟩

/-- The attempts to fetch a chunk ask for its range, and keep it in flight. -/
theorem attempts_keeps (f : Fetcher) {r : ByteRange} (hr : f.layout.chunkRange? i = some r)
    (left n : Nat) (s : Site σ) (hi : s.ledger.state i = .fetching) :
    Keeps f i s (f.attempts ⟨i⟩ r left n s).2 := by
  refine f.attempts_induction ⟨i⟩ r
    (motive := fun s out => s.ledger.state i = .fetching → Keeps f i s out.2)
    ?good ?bad ?again left n s hi
  case good =>
    intro s b _ hi
    have hask : Keeps f i s _ := ask_keeps hr hi f.config.fetchTimeout
    exact hask.trans (deliver_keeps r b hask.2)
  case bad =>
    intro s e hi
    have hask : Keeps f i s _ := ask_keeps hr hi f.config.fetchTimeout
    exact hask.trans (blame_keeps hask.2)
  case again =>
    intro s out ih hi
    have hask : Keeps f i s _ := ask_keeps hr hi f.config.fetchTimeout
    have hblame : Keeps f i s _ := hask.trans (blame_keeps hask.2)
    exact hblame.trans (ih hblame.2)

theorem fetchVerified_keeps (f : Fetcher) (hi : s.ledger.state i = .fetching) :
    Keeps f i s (f.fetchVerified ⟨i⟩ s).2 := by
  unfold fetchVerified
  split
  · exact ⟨.refl s, hi⟩
  · rename_i r hr
    exact f.attempts_keeps hr _ _ s hi

/-- All that a call to make sure of chunk `i` can come to. -/
inductive Ensured (f : Fetcher) (i : Nat) (s : Site σ) : Except Error ChunkOutcome → Site σ → Prop
  /-- There is no such chunk. -/
  | outside {e : Error} (h : s.ledger.chunkCount ≤ i) : Ensured f i s (.error e) s
  /-- The chunk is verified, and nothing is done. -/
  | already (h : s.ledger.state i = .verified) : Ensured f i s (.ok .alreadyVerified) s
  /-- Somebody else is fetching the chunk, and the outcome is theirs. -/
  | joined {o : Outcome} {s' : Site σ} (h : s.ledger.state i = .fetching)
      (ht : Touches f i s s')
      (hs : s.ledger.Tracks → s'.ledger.state i = Ledger.stateAfter o) :
      Ensured f i s (o.map fun _ => .joined) s'
  /-- The chunk is fetched. -/
  | fetched {n : Nat} {s' : Site σ} (h : s.ledger.state i ≠ .fetching)
      (hv : s.ledger.state i ≠ .verified) (ht : Touches f i s s')
      (hs : s'.ledger.state i = .verified) : Ensured f i s (.ok (.fetched n)) s'
  /-- The chunk cannot be fetched. -/
  | failed {e : Error} {s' : Site σ} (h : s.ledger.state i ≠ .fetching)
      (hv : s.ledger.state i ≠ .verified) (ht : Touches f i s s')
      (hs : s'.ledger.state i = .invalid) : Ensured f i s (.error e) s'

/-- The ticket of a chunk in flight is used up. -/
theorem fulfil_cases (f : Fetcher) (hi : s.ledger.state i = .fetching) :
    Touches f i s (f.fulfil ⟨i⟩ s).2 ∧
      ((∃ n, (f.fulfil ⟨i⟩ s).1 = .ok (.fetched n) ∧
        (f.fulfil ⟨i⟩ s).2.ledger.state i = .verified) ∨
      ∃ e, (f.fulfil ⟨i⟩ s).1 = .error e ∧ (f.fulfil ⟨i⟩ s).2.ledger.state i = .invalid) := by
  obtain ⟨htouch, hfetch⟩ := f.fetchVerified_keeps hi
  unfold fulfil
  rcases hv : f.fetchVerified ⟨i⟩ s with ⟨e | n, s'⟩
  · rw [hv] at htouch hfetch
    have hok := Ledger.settle_of_fetching hfetch (.error e)
    dsimp only [Ticket.failed]
    rw [hok]
    refine ⟨htouch.trans (Site.touches_ledger (Ledger.onlyAt_settle hfetch _)),
      .inr ⟨e, rfl, ?_⟩⟩
    exact (Ledger.state_settle hfetch _ i).trans (if_pos rfl)
  · rw [hv] at htouch hfetch
    have hok := Ledger.settle_of_fetching hfetch (.ok ())
    dsimp only [Ticket.verified]
    rw [hok]
    refine ⟨htouch.trans (Site.touches_ledger (Ledger.onlyAt_settle hfetch _)),
      .inl ⟨n, rfl, ?_⟩⟩
    exact (Ledger.state_settle hfetch _ i).trans (if_pos rfl)

theorem ensure_cases (f : Fetcher) (i : Nat) (s : Site σ) :
    Ensured f i s (f.ensure i s).1 (f.ensure i s).2 := by
  unfold ensure
  rcases hc : s.ledger.claim i with ⟨e | c, g⟩
  · refine .outside (Nat.le_of_not_lt fun hi => ?_)
    unfold Ledger.claim at hc
    rw [if_pos hi] at hc
    split at hc
    · cases hc
    · split at hc <;> cases hc
  · cases c with
    | verified =>
      obtain ⟨rfl, hv⟩ := Ledger.claim_eq_verified hc
      exact .already hv
    | inFlight flight =>
      obtain ⟨rfl, hf⟩ := Ledger.claim_eq_inFlight hc
      have hi : i < s.ledger.chunkCount := by
        refine Nat.lt_of_not_le fun hge => ?_
        unfold Ledger.claim at hc
        rw [if_neg (Nat.not_lt.2 hge)] at hc
        cases hc
      obtain ⟨htouch, hstate⟩ := Site.await_cases (f := f) hi hf
      exact .joined (Ledger.state_eq_fetching_iff.2 ⟨hi, flight, hf⟩) htouch hstate
    | owner t =>
      obtain ⟨rfl, hi, hf, hnew, rfl⟩ := Ledger.claim_eq_owner hc
      have hdepart : Touches f i s { s with ledger := s.ledger.depart i } :=
        Site.touches_ledger (Ledger.onlyAt_depart hi hf)
      have hfetch : (s.ledger.depart i).state i = .fetching :=
        (Ledger.state_depart hi i).trans (if_pos rfl)
      have hfree := Ledger.state_ne_fetching hf
      obtain ⟨htouch, ⟨n, hr, hv⟩ | ⟨e, hr, hv⟩⟩ :=
        f.fulfil_cases (s := { s with ledger := s.ledger.depart i }) hfetch
      · show Ensured f i s (f.fulfil ⟨i⟩ _).1 _
        rw [hr]
        exact .fetched hfree hnew (hdepart.trans htouch) hv
      · show Ensured f i s (f.fulfil ⟨i⟩ _).1 _
        rw [hr]
        exact .failed hfree hnew (hdepart.trans htouch) hv

end Fetcher

/-! ### Checking a chunk again -/

namespace Fetcher

/-- Hash the local bytes of a verified chunk again. True if they do not pass. -/
def look (f : Fetcher) (i : Nat) (s : Site σ) : Bool × Site σ :=
  if s.ledger.state i ≠ .verified then (false, s)
  else
    match f.layout.chunkRange? i with
    | none => (false, s)
    | some r =>
      match f.localFile.readRange r s.disk with
      | (.error _, d) => (false, { s with disk := d })
      | (.ok b, d) => (!f.tree.verifyLeaf i b, { s with disk := d })

/-- The site after the verdict on chunk `i` was taken back. -/
def takeBack (i : Nat) (s : Site σ) : Site σ := { s with ledger := (s.ledger.demote i).2 }

theorem recheck_eq_look (f : Fetcher) (i : Nat) (s : Site σ) : (f.recheck i s).2 =
    match f.look i s with
    | (true, s) => takeBack i s
    | (false, s) => s := by
  unfold recheck look
  by_cases hv : s.ledger.state i ≠ .verified
  · rw [if_pos hv, if_pos hv]
  · rw [if_neg hv, if_neg hv]
    cases f.layout.chunkRange? i with
    | none => rfl
    | some r =>
      dsimp only
      rcases f.localFile.readRange r s.disk with ⟨e | b, d⟩
      · rfl
      · dsimp only
        cases f.tree.verifyLeaf i b <;> rfl

/-- Looking at a chunk reads local bytes and does nothing else. -/
theorem look_spec (f : Fetcher) (i : Nat) (s : Site σ) : (f.look i s).2.ledger = s.ledger ∧
    (f.look i s).2.source = s.source ∧ f.localFile.Touches s.disk (f.look i s).2.disk := by
  unfold look
  split
  · exact ⟨rfl, rfl, .refl _ _⟩
  · split
    · exact ⟨rfl, rfl, .refl _ _⟩
    · rename_i r _
      have hread := f.localFile.touches_readRange r s.disk
      rcases hd : f.localFile.readRange r s.disk with ⟨e | b, d⟩
      · rw [hd] at hread
        exact ⟨rfl, rfl, hread⟩
      · rw [hd] at hread
        exact ⟨rfl, rfl, hread⟩

end Fetcher
end VerifiedCopy
