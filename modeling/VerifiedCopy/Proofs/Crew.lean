/-
# Workers side by side

A job has several workers, and several jobs can be at work on one local copy.
They share the ledger, the disk and the source, and a worker can be held up
between any two of its moves while others make theirs. So the fetch of a chunk is
cut into its moves here: the chunk is claimed, the source is asked, the answer is
written or put down as a failure, the ticket is used up, the chunk is counted
(`Stage.take`, `Stage.go`). A crew is some workers at their stages, and a turn is
one move of one of them, or a saving of the ledger (`Crew.turn`).

A worker that nobody interrupts does what a job does with a chunk (`solo_spec`).
In whatever order the workers take turns, no two of them hold one chunk, every
chunk in flight is held by one of them, and what a worker has written stays there
until it uses its ticket up (`Crew.Sound`). So every order of turns is a run of
steps (`turns_spec`).

Key definitions: `Stage`, `Crew`, `Turn`, `Crew.turns`, `Crew.Sound`.
Key theorems: `solo_spec`, `go_spec`, `turns_spec`, `turns_leads`.
-/
import VerifiedCopy.Proofs.Fetching

namespace VerifiedCopy

open Site (Ready Calm Leads Run Step)

/-- How far a worker has got with a chunk. -/
inductive Stage where
  | idle
  /-- It holds the ticket of chunk `i` and is about to ask for the range `r`:
  attempt number `attempt`, after which `left` more are allowed. -/
  | asking (i : Nat) (r : ByteRange) (left attempt : Nat)
  /-- The answer has come and was judged. -/
  | judged (i : Nat) (r : ByteRange) (left attempt : Nat) (j : Judgement)
  /-- The fetch of chunk `i` is over, and the ticket is to be used up. -/
  | closing (i : Nat) (result : Except Error Nat)
  /-- A chunk was fetched and is to be counted. -/
  | counting
  /-- Somebody else fetches the chunk. -/
  | joining (flight : FlightId)

namespace Stage

/-- The chunk whose ticket the worker holds. -/
def chunk? : Stage → Option Nat
  | asking i _ _ _ | judged i _ _ _ _ | closing i _ => some i
  | idle | counting | joining _ => none

def isIdle : Stage → Bool
  | idle => true
  | _ => false

variable {σ : Type}

/-- Turn to chunk `i`. -/
def take (f : Fetcher) (i : Nat) (s : Site σ) : Stage × Site σ :=
  match s.ledger.claim i with
  | (.error _, _) => (idle, s)
  | (.ok .verified, g) => (idle, { s with ledger := g })
  | (.ok (.inFlight flight), g) => (joining flight, { s with ledger := g })
  | (.ok (.owner t), g) =>
    match f.layout.chunkRange? t.index with
    | none =>
      (closing t.index (.error (.invalidConfiguration s!"chunk {t.index} outside layout")),
        { s with ledger := g })
    | some r => (asking t.index r f.config.maxRetries.toNat 1, { s with ledger := g })

/-- The next move of a worker. -/
def go [RangeSource σ] (f : Fetcher) (s : Site σ) : Stage → Stage × Fetcher × Site σ
  | idle => (idle, f, s)
  | asking i r left attempt =>
    let (answer, source) := RangeSource.fetch s.source s.disk r f.config.fetchTimeout
    (judged i r left attempt (f.judge i r answer), f, { s with source })
  | judged i r left attempt j =>
    match j with
    | .good b =>
      let (result, s) := f.deliver i r b s
      (closing i result, f, s)
    | j =>
      let s := { s with ledger := Ticket.recordInvalid ⟨i⟩ s.ledger }
      match left with
      | 0 => (closing i (.error (j.toError i attempt)), f, s)
      | left + 1 =>
        if j.isRetryable then (asking i r left (attempt + 1), f, s)
        else (closing i (.error (j.toError i attempt)), f, s)
  | closing i (.ok _) =>
    let (r, g) := Ticket.verified ⟨i⟩ s.ledger
    (if r.isOk then counting else idle, f, { s with ledger := g })
  | closing i (.error e) => (idle, f, { s with ledger := (Ticket.failed ⟨i⟩ e s.ledger).2 })
  | counting =>
    let (_, f, s) := f.noteFetched s
    (idle, f, s)
  | joining flight =>
    (if (s.ledger.outcome? flight).isSome then idle else joining flight, f, s)

end Stage

/-- Workers at their stages, each with the number of its fetcher. -/
structure Crew (σ : Type) where
  site : Site σ
  fetchers : List Fetcher
  workers : List (Nat × Stage)

/-- What happens next in a crew. Workers are named by their numbers. -/
inductive Turn where
  /-- Worker `w` turns to chunk `i`, if it is idle. -/
  | take (w i : Nat)
  /-- Worker `w` makes its next move. -/
  | go (w : Nat)
  /-- Somebody saves the ledger. -/
  | save

namespace Crew

variable {σ : Type} [RangeSource σ]

/-- The crew after a turn of worker `w`, if there is one. -/
def work (c : Crew σ) (w : Nat) (move : Fetcher → Stage → Stage × Fetcher × Site σ) : Crew σ :=
  match c.workers[w]? with
  | none => c
  | some (k, st) =>
    match c.fetchers[k]? with
    | none => c
    | some f =>
      let (st, f, s) := move f st
      { site := s, fetchers := c.fetchers.set k f, workers := c.workers.set w (k, st) }

/-- The crew after a turn. -/
def turn (c : Crew σ) : Turn → Crew σ
  | .take w i => c.work w fun f st =>
    match st with
    | .idle =>
      let (st, s) := Stage.take f i c.site
      (st, f, s)
    | st => (st, f, c.site)
  | .go w => c.work w fun f st => st.go f c.site
  | .save => { c with site := c.site.persist.2 }

/-- The crew after some turns. -/
def turns : List Turn → Crew σ → Crew σ
  | [], c => c
  | t :: rest, c => turns rest (c.turn t)

/-- Whether nobody is at work. -/
def atRest (c : Crew σ) : Bool :=
  c.workers.all fun w => w.2.isIdle

/-- The chunk whose ticket worker `w` holds. -/
def chunkOf (c : Crew σ) (w : Nat) : Option Nat :=
  c.workers[w]?.bind fun x => x.2.chunk?

end Crew

variable {σ : Type} {t : Tree} {file : LocalFile} {f : Fetcher} {s s' : Site σ} {st st' : Stage}
  {i : Nat}

namespace Stage

/-! ### A worker alone -/

section Solo

variable [RangeSource σ]

/-- A worker that nobody interrupts, after `n` moves. -/
def solo : Nat → Stage × Fetcher × Site σ → Stage × Fetcher × Site σ
  | 0, x => x
  | n + 1, (st, f, s) => solo n (st.go f s)

theorem solo_add (m n : Nat) (x : Stage × Fetcher × Site σ) :
    solo (m + n) x = solo n (solo m x) := by
  induction m generalizing x with
  | zero => rw [Nat.zero_add]; rfl
  | succ m ih => rw [Nat.succ_add]; exact ih (x.1.go x.2.1 x.2.2)

/-- Alone, a worker makes the attempts of its fetcher. -/
theorem solo_attempts (f : Fetcher) (i : Nat) (r : ByteRange) (left attempt : Nat) (s : Site σ) :
    ∃ n, solo n (asking i r left attempt, f, s) =
      (closing i (f.attempts ⟨i⟩ r left attempt s).1, f, (f.attempts ⟨i⟩ r left attempt s).2) := by
  induction left generalizing attempt s with
  | zero =>
    refine ⟨2, ?_⟩
    unfold Fetcher.attempts
    dsimp only
    split
    · rename_i b hj
      simp only [solo, go, hj]
    · rename_i hj
      simp only [solo, go]
  | succ left ih =>
    unfold Fetcher.attempts
    dsimp only
    split
    · rename_i b hj
      exact ⟨2, by simp only [solo, go, hj]⟩
    · rename_i hj
      split
      · rename_i hretry
        obtain ⟨n, hn⟩ := ih (attempt + 1) { s with
          source := (RangeSource.fetch s.source s.disk r f.config.fetchTimeout).2
          ledger := Ticket.recordInvalid ⟨i⟩ s.ledger }
        refine ⟨2 + n, ?_⟩
        rw [solo_add, ← hn]
        simp only [solo, go]
        rw [if_pos hretry]
      · rename_i hretry
        refine ⟨2, ?_⟩
        simp only [solo, go]
        rw [if_neg hretry]

/-- Alone, a worker uses its ticket up and counts the chunk if it was fetched. -/
theorem solo_fulfil (f : Fetcher) (i : Nat) (s : Site σ) (j : Job) :
    ∃ n, solo n (closing i (f.fetchVerified ⟨i⟩ s).1, f, (f.fetchVerified ⟨i⟩ s).2) =
      (idle, (j.record i (f.fulfil ⟨i⟩ s).1 f (f.fulfil ⟨i⟩ s).2).2) := by
  unfold Fetcher.fulfil
  rcases f.fetchVerified ⟨i⟩ s with ⟨e | bytes, s'⟩
  · refine ⟨1, ?_⟩
    simp only [solo, go]
    cases (Ticket.failed ⟨i⟩ e s'.ledger).1 <;> rfl
  · rcases hv : Ticket.verified ⟨i⟩ s'.ledger with ⟨e | u, g⟩
    · refine ⟨1, ?_⟩
      simp only [solo, go, hv]
      rfl
    · refine ⟨2, ?_⟩
      simp only [solo, go, hv, Except.isOk, Except.toBool, if_true, Except.map, Job.record]
      rcases f.noteFetched { s' with ledger := g } with ⟨e | u, f', s''⟩ <;> rfl

/-- Alone, a worker that turns to a chunk does what a job does with it. -/
theorem solo_spec (f : Fetcher) (i : Nat) (s : Site σ) (hidle : s.ledger.inFlight = []) (j : Job) :
    ∃ n, solo n ((take f i s).1, f, (take f i s).2) = (idle, (j.carryOut i f s).2) := by
  unfold take Job.carryOut Fetcher.ensure
  rcases hc : s.ledger.claim i with ⟨e | c, g⟩
  · exact ⟨0, rfl⟩
  · cases c with
    | verified => exact ⟨0, rfl⟩
    | inFlight flight =>
      obtain ⟨-, hf⟩ := Ledger.claim_eq_inFlight hc
      unfold Ledger.flight? at hf
      rw [hidle] at hf
      cases hf
    | owner ticket =>
      obtain ⟨rfl, -⟩ := Ledger.claim_eq_owner hc
      obtain ⟨n, hn⟩ := solo_fulfil f i { s with ledger := g } j
      dsimp only [Fetcher.pursue]
      rw [← hn]
      unfold Fetcher.fetchVerified
      cases f.layout.chunkRange? i with
      | none => exact ⟨n, rfl⟩
      | some r =>
        obtain ⟨m, hm⟩ := solo_attempts f i r f.config.maxRetries.toNat 1 { s with ledger := g }
        refine ⟨m + n, ?_⟩
        rw [solo_add]
        exact congrArg (solo n) hm

end Solo

/-! ### What a move does -/

/-- What a worker can rely on: the chunk whose ticket it holds is in flight, and
its bytes are right once they have been written. -/
def Holds (t : Tree) (file : LocalFile) (s : Site σ) : Stage → Prop
  | asking i r _ _ => s.ledger.state i = .fetching ∧ t.layout.chunkRange? i = some r
  | judged i r _ _ j => s.ledger.state i = .fetching ∧ t.layout.chunkRange? i = some r ∧
    ∀ b, j = .good b → b.length = r.size ∧ t.verifyLeaf i b = true
  | closing i result => s.ledger.state i = .fetching ∧
    ∀ n, result = .ok n → t.Matches (file.content s.disk) i
  | idle | counting | joining _ => True

/-- Chunk `i` stays in flight, and its bytes stay right if they are. -/
def Spares (t : Tree) (file : LocalFile) (s s' : Site σ) (i : Nat) : Prop :=
  s'.ledger.state i = .fetching ∧
    (t.Matches (file.content s.disk) i → t.Matches (file.content s'.disk) i)

theorem Holds.fetching (h : st.Holds t file s) (hi : st.chunk? = some i) :
    s.ledger.state i = .fetching := by
  cases st with
  | asking j r left attempt => cases hi; exact h.1
  | judged j r left attempt j' => cases hi; exact h.1
  | closing j result => cases hi; exact h.1
  | idle => cases hi
  | counting => cases hi
  | joining flight => cases hi

/-- A worker can still rely on what it relied on while its chunk is spared. -/
theorem Holds.of_spares (h : st.Holds t file s)
    (hs : ∀ i, st.chunk? = some i → Spares t file s s' i) : st.Holds t file s' := by
  cases st with
  | asking i r left attempt => exact ⟨(hs i rfl).1, h.2⟩
  | judged i r left attempt j => exact ⟨(hs i rfl).1, h.2⟩
  | closing i result =>
    obtain ⟨hfetch, hmatch⟩ := hs i rfl
    exact ⟨hfetch, fun n hn => hmatch (h.2 n hn)⟩
  | idle => exact trivial
  | counting => exact trivial
  | joining flight => exact trivial

variable [RangeSource σ]

/-- A move of a worker from one site to the next. -/
structure Moves (t : Tree) (file : LocalFile) (s : Site σ) (st : Stage) (s' : Site σ)
    (st' : Stage) : Prop where
  run : ∃ c, Run t file s c s'
  holds : st'.Holds t file s'
  /-- A chunk in flight is not taken. -/
  taken : ∀ i, st'.chunk? = some i → st.chunk? = some i ∨ s.ledger.state i ≠ .fetching
  /-- The chunks of others are left alone. -/
  spares : ∀ i, s.ledger.state i = .fetching → st.chunk? ≠ some i → Spares t file s s' i
  /-- A chunk in flight is the worker's own or somebody else's. -/
  inFlight : ∀ e ∈ s'.ledger.inFlight,
    st'.chunk? = some e.1 ∨ (e ∈ s.ledger.inFlight ∧ st.chunk? ≠ some e.1)

/-- A move that keeps the chunk, and changes neither states nor bytes. -/
theorem Moves.of_same {c : List (Nat × ChunkState)} (hrun : Run t file s c s')
    (hholds : st'.Holds t file s') (hchunk : st'.chunk? = st.chunk?)
    (hstate : ∀ i, s'.ledger.state i = s.ledger.state i)
    (hin : s'.ledger.inFlight = s.ledger.inFlight)
    (hcontent : file.content s'.disk = file.content s.disk) : Moves t file s st s' st' where
  run := ⟨c, hrun⟩
  holds := hholds
  taken i hi := .inl (by rw [← hchunk]; exact hi)
  spares i hi _ := ⟨(hstate i).trans hi, fun hm => by rw [hcontent]; exact hm⟩
  inFlight e he := by
    rw [hin] at he
    by_cases hown : st.chunk? = some e.1
    · exact .inl (hchunk.trans hown)
    · exact .inr ⟨he, hown⟩

/-- A move that only the worker knows of. -/
theorem Moves.of_eq (hholds : st'.Holds t file s) (hchunk : st'.chunk? = st.chunk?) :
    Moves t file s st s st' :=
  .of_same (.nil s) hholds hchunk (fun _ => rfl) rfl rfl

theorem moves_ask (hf : f.Serves t file) {r : ByteRange} {left attempt : Nat}
    (h : (asking i r left attempt).Holds t file s) :
    Moves t file s (asking i r left attempt) ((asking i r left attempt).go f s).2.2
      ((asking i r left attempt).go f s).1 := by
  obtain ⟨hi, hr⟩ := h
  have hstep : Step t file s [] ((asking i r left attempt).go f s).2.2 :=
    .ask s r f.config.fetchTimeout
  refine .of_same (.single hstep) ⟨hi, hr, fun b hb => ?_⟩ rfl (fun _ => rfl) rfl rfl
  rw [← hf.1]
  exact Fetcher.judge_eq_good hb

/-- Bytes that were judged good are written. -/
theorem moves_deliver (hf : f.Serves t file) (hs : Ready file s) {r : ByteRange}
    {left attempt : Nat} {b : Bytes} (h : (judged i r left attempt (.good b)).Holds t file s) :
    Moves t file s (judged i r left attempt (.good b)) (f.deliver i r b s).2
      (closing i (f.deliver i r b s).1) := by
  obtain ⟨hi, hr, hgood⟩ := h
  obtain ⟨hlen, hb⟩ := hgood b rfl
  obtain ⟨hrun, hmatch⟩ := Fetcher.deliver_run hf hs hi hr hlen hb
  refine ⟨⟨[], hrun.run⟩, ⟨hrun.fetching, hmatch⟩, fun j hj => .inl hj, fun j hj hne => ?_,
    fun e he => ?_⟩
  · have hij : i ≠ j := fun e => hne (congrArg some e)
    obtain ⟨hledger, n, hcontent⟩ := Fetcher.deliver_content hf hs i r b
    refine ⟨by rw [hledger]; exact hj, fun hm => ?_⟩
    rw [hcontent]
    refine Site.matches_of_sameChunk hm ?_
    refine Site.sameChunk_overlay (Site.inside_of_matches hm) hij hr ?_
    rw [← hlen]
    exact List.length_take_le' n b
  · rw [hrun.inFlight] at he
    by_cases hown : e.1 = i
    · exact .inl (congrArg some hown.symm)
    · exact .inr ⟨he, fun h => hown (Option.some.inj h).symm⟩

/-- The ticket is used up. -/
theorem moves_settle {result : Except Error Nat} (h : (closing i result).Holds t file s)
    (o : Outcome) (ho : o = .ok () → ∃ n, result = .ok n) (hchunk : st.chunk? = none)
    (hst : st.Holds t file { s with ledger := (s.ledger.settle i o).2 }) :
    Moves t file s (closing i result) { s with ledger := (s.ledger.settle i o).2 } st := by
  obtain ⟨hi, hmatch⟩ := h
  have hstep : Step t file s [] { s with ledger := (s.ledger.settle i o).2 } := by
    refine .settle hi o fun hok => ?_
    obtain ⟨n, hn⟩ := ho hok
    exact hmatch n hn
  refine ⟨⟨[], .single hstep⟩, hst, fun j hj => ?_, fun j hj hne => ⟨?_, id⟩, fun e he => ?_⟩
  · rw [hchunk] at hj
    cases hj
  · have hji : j ≠ i := fun e => hne (congrArg some e.symm)
    exact (Ledger.state_settle hi o j).trans ((if_neg hji).trans hj)
  · have hfilter : e ∈ (s.ledger.settle i o).2.inFlight := he
    rw [Ledger.settle_inFlight hi, List.mem_filter, bne_iff_ne] at hfilter
    exact .inr ⟨hfilter.1, fun h => hfilter.2 (Option.some.inj h).symm⟩

/-- What becomes of a failed attempt: the fetch is over unless another attempt is
allowed and can succeed. -/
theorem go_judged {j : Judgement} (hj : ∀ b, j ≠ .good b) (f : Fetcher) (i : Nat)
    (r : ByteRange) (left attempt : Nat) (s : Site σ) :
    (judged i r left attempt j).go f s =
      (if 0 < left ∧ j.isRetryable = true then asking i r (left - 1) (attempt + 1)
        else closing i (.error (j.toError i attempt)),
        f, { s with ledger := Ticket.recordInvalid ⟨i⟩ s.ledger }) := by
  cases left with
  | zero => simp [go]
  | succ left =>
    simp only [go, Nat.succ_pos, true_and, Nat.succ_sub_one]
    split <;> rfl

/-- The next move of a worker that can rely on its stage. -/
theorem go_spec (hf : f.Serves t file) (hs : Ready file s) (h : st.Holds t file s) :
    (st.go f s).2.1.Serves t file ∧ Moves t file s st (st.go f s).2.2 (st.go f s).1 := by
  cases st with
  | idle => exact ⟨hf, .of_eq h rfl⟩
  | asking i r left attempt => exact ⟨hf, moves_ask hf h⟩
  | judged i r left attempt j =>
    by_cases hgood : ∃ b, j = .good b
    · obtain ⟨b, rfl⟩ := hgood
      exact ⟨hf, moves_deliver hf hs h⟩
    · rw [go_judged (fun b hb => hgood ⟨b, hb⟩)]
      have hblame : Step t file s [] { s with ledger := Ticket.recordInvalid ⟨i⟩ s.ledger } :=
        .blame h.1
      have hstate := Ledger.state_recordInvalid h.1
      have hfetch := (hstate i).trans h.1
      refine ⟨hf, ?_⟩
      dsimp only
      split
      · exact .of_same (.single hblame) ⟨hfetch, h.2.1⟩ rfl hstate rfl rfl
      · exact .of_same (.single hblame) ⟨hfetch, nofun⟩ rfl hstate rfl rfl
  | closing i result =>
    cases result with
    | ok n =>
      have hok := Ledger.settle_of_fetching h.1 (.ok ())
      refine ⟨hf, ?_⟩
      simp only [go, Ticket.verified, hok]
      exact moves_settle h (.ok ()) (fun _ => ⟨n, rfl⟩) rfl trivial
    | error e =>
      exact ⟨hf, moves_settle h (.error e) (nomatch ·) rfl trivial⟩
  | counting =>
    obtain ⟨hserves, -⟩ := Fetcher.noteFetched_leads hf s
    refine ⟨hserves, ?_⟩
    simp only [go]
    unfold Fetcher.noteFetched
    split
    · exact .of_same (.single (.persist s)) trivial rfl (fun _ => rfl) rfl hs.persist.2
    · exact .of_eq trivial rfl
  | joining flight =>
    refine ⟨hf, ?_⟩
    simp only [go]
    split
    · exact .of_eq trivial rfl
    · exact .of_eq trivial rfl

/-- The ticket of a chunk is taken, which nobody holds. -/
theorem moves_claim {g : Ledger} (hc : s.ledger.claim i = (.ok (.owner ⟨i⟩), g))
    (hchunk : st.chunk? = some i) (hst : st.Holds t file { s with ledger := g }) :
    Moves t file s idle { s with ledger := g } st := by
  have hstep : Step t file s _ { s with ledger := g } := .claim hc
  obtain ⟨-, hi, hnone, -, rfl⟩ := Ledger.claim_eq_owner hc
  have hfree : s.ledger.state i ≠ .fetching := by
    intro h
    obtain ⟨-, flight, hflight⟩ := Ledger.state_eq_fetching_iff.1 h
    rw [hnone] at hflight
    cases hflight
  refine ⟨⟨_, .single hstep⟩, hst, fun j hj => ?_, fun j hj _ => ⟨?_, id⟩, fun e he => ?_⟩
  · obtain rfl : i = j := Option.some.inj (hchunk.symm.trans hj)
    exact .inr hfree
  · have hji : j ≠ i := by
      rintro rfl
      exact hfree hj
    exact (Ledger.state_depart hi j).trans ((if_neg hji).trans hj)
  · rcases List.mem_cons.1 (show e ∈ (i, _) :: s.ledger.inFlight from he) with rfl | he
    · exact .inl hchunk
    · exact .inr ⟨he, nofun⟩

/-- A worker that turns to a chunk holds its ticket afterwards, or has nothing to
do for it. -/
theorem take_spec (hf : f.Serves t file) (i : Nat) (s : Site σ) :
    Moves t file s idle (take f i s).2 (take f i s).1 := by
  unfold take
  rcases hc : s.ledger.claim i with ⟨e | c, g⟩
  · exact .of_eq trivial rfl
  · cases c with
    | verified =>
      obtain ⟨rfl, -⟩ := Ledger.claim_eq_verified hc
      exact .of_eq trivial rfl
    | inFlight flight =>
      obtain ⟨rfl, -⟩ := Ledger.claim_eq_inFlight hc
      exact .of_eq trivial rfl
    | owner ticket =>
      obtain ⟨rfl, hi, -, -, rfl⟩ := Ledger.claim_eq_owner hc
      have hfetch : (s.ledger.depart i).state i = .fetching :=
        (Ledger.state_depart hi i).trans (if_pos rfl)
      have hlayout : f.layout = t.layout := congrArg Tree.layout hf.1
      dsimp only
      rw [hlayout]
      cases hr : t.layout.chunkRange? i with
      | none => exact moves_claim hc rfl ⟨hfetch, nofun⟩
      | some r => exact moves_claim hc rfl ⟨hfetch, hr⟩

end Stage

/-! ### A crew -/

namespace Crew

variable {c : Crew σ} {w : Nat}

/-- The workers of a crew can rely on their stages, no two of them hold one
chunk, and every chunk in flight is held by one of them. -/
structure Sound (t : Tree) (file : LocalFile) (c : Crew σ) : Prop where
  ready : Ready file c.site
  serves : ∀ f ∈ c.fetchers, f.Serves t file
  holds : ∀ (w k : Nat) (st : Stage), c.workers[w]? = some (k, st) → st.Holds t file c.site
  alone : ∀ w w' i, c.chunkOf w = some i → c.chunkOf w' = some i → w = w'
  held : ∀ e ∈ c.site.ledger.inFlight, ∃ w, c.chunkOf w = some e.1

theorem chunkOf_eq_some_iff : c.chunkOf w = some i ↔
    ∃ k st, c.workers[w]? = some (k, st) ∧ st.chunk? = some i := by
  unfold chunkOf
  rw [Option.bind_eq_some_iff]
  exact ⟨fun ⟨⟨k, st⟩, hw, hi⟩ => ⟨k, st, hw, hi⟩, fun ⟨k, st, hw, hi⟩ => ⟨(k, st), hw, hi⟩⟩

/-- The chunks that the workers hold after worker `w` has come to another stage. -/
theorem chunkOf_set {k : Nat} (hlt : w < c.workers.length) (fetchers : List Fetcher) (w' : Nat) :
    chunkOf { site := s', fetchers, workers := c.workers.set w (k, st') } w' =
      if w = w' then st'.chunk? else c.chunkOf w' := by
  unfold chunkOf
  by_cases h : w = w'
  · subst h
    rw [if_pos rfl, List.getElem?_set_self hlt]
    rfl
  · rw [if_neg h, List.getElem?_set_ne h]

/-- A chunk that a worker holds is in flight. -/
theorem Sound.fetching (h : c.Sound t file) (hi : c.chunkOf w = some i) :
    c.site.ledger.state i = .fetching := by
  obtain ⟨k, st, hw, hst⟩ := chunkOf_eq_some_iff.1 hi
  exact (h.holds w k st hw).fetching hst

variable [RangeSource σ]

/-- What a worker holds after a move, nobody else holds. -/
theorem Sound.eq_of_moves (h : c.Sound t file) {k w' : Nat} (hw : c.workers[w]? = some (k, st))
    (hmove : st.Moves t file c.site s' st') (hi : st'.chunk? = some i)
    (hi' : c.chunkOf w' = some i) : w = w' := by
  rcases hmove.taken i hi with hown | hfree
  · exact h.alone w w' i (chunkOf_eq_some_iff.2 ⟨k, st, hw, hown⟩) hi'
  · exact absurd (h.fetching hi') hfree

/-- A move of worker `w` keeps a crew sound. -/
theorem Sound.set (h : c.Sound t file) {k : Nat} (hw : c.workers[w]? = some (k, st))
    (hmove : st.Moves t file c.site s' st') {fetchers : List Fetcher}
    (hf : ∀ f ∈ fetchers, f.Serves t file) :
    Sound t file { site := s', fetchers, workers := c.workers.set w (k, st') } := by
  have hlt : w < c.workers.length := (List.getElem?_eq_some_iff.1 hw).1
  obtain ⟨labels, hrun⟩ := hmove.run
  refine ⟨hrun.ready h.ready, hf, fun w' k' st₁ hw' => ?_, fun w' w'' i hi hi' => ?_,
    fun e he => ?_⟩
  · by_cases hne : w = w'
    · subst hne
      rw [List.getElem?_set_self hlt] at hw'
      cases hw'
      exact hmove.holds
    · rw [List.getElem?_set_ne hne] at hw'
      refine (h.holds w' k' st₁ hw').of_spares fun i hi => ?_
      have hi' : c.chunkOf w' = some i := chunkOf_eq_some_iff.2 ⟨k', st₁, hw', hi⟩
      refine hmove.spares i (h.fetching hi') fun hown => hne ?_
      exact h.alone w w' i (chunkOf_eq_some_iff.2 ⟨k, st, hw, hown⟩) hi'
  · rw [chunkOf_set hlt] at hi hi'
    by_cases hw₁ : w = w'
    · by_cases hw₂ : w = w''
      · rw [← hw₁, hw₂]
      · rw [if_pos hw₁] at hi
        rw [if_neg hw₂] at hi'
        exact absurd (h.eq_of_moves hw hmove hi hi') hw₂
    · rw [if_neg hw₁] at hi
      by_cases hw₂ : w = w''
      · rw [if_pos hw₂] at hi'
        exact absurd (h.eq_of_moves hw hmove hi' hi) hw₁
      · rw [if_neg hw₂] at hi'
        exact h.alone w' w'' i hi hi'
  · rcases hmove.inFlight e he with hown | ⟨he, hother⟩
    · exact ⟨w, by rw [chunkOf_set hlt, if_pos rfl, hown]⟩
    · obtain ⟨w', hw'⟩ := h.held e he
      have hne : w ≠ w' := by
        rintro rfl
        obtain ⟨k', st₁, hw₁, hst₁⟩ := chunkOf_eq_some_iff.1 hw'
        rw [hw] at hw₁
        cases hw₁
        exact hother hst₁
      exact ⟨w', by rw [chunkOf_set hlt, if_neg hne, hw']⟩

/-- A turn of a worker keeps a crew sound if each of its moves does. -/
theorem work_spec (h : c.Sound t file) (w : Nat)
    {move : Fetcher → Stage → Stage × Fetcher × Site σ}
    (hmove : ∀ f st, f.Serves t file → st.Holds t file c.site →
      (move f st).2.1.Serves t file ∧ st.Moves t file c.site (move f st).2.2 (move f st).1) :
    Sound t file (c.work w move) ∧ ∃ cs, Run t file c.site cs (c.work w move).site := by
  unfold work
  split
  · exact ⟨h, [], .nil _⟩
  · rename_i k st hw
    split
    · exact ⟨h, [], .nil _⟩
    · rename_i f hk
      obtain ⟨hserves, hmoves⟩ := hmove f st (h.serves f (List.mem_of_getElem? hk))
        (h.holds w k st hw)
      refine ⟨h.set hw hmoves fun f' hf' => ?_, hmoves.run⟩
      rcases List.mem_or_eq_of_mem_set hf' with hf' | rfl
      · exact h.serves f' hf'
      · exact hserves

theorem turn_spec (h : c.Sound t file) (turn : Turn) :
    Sound t file (c.turn turn) ∧ ∃ cs, Run t file c.site cs (c.turn turn).site := by
  cases turn with
  | take w i =>
    refine work_spec h w fun f st hf hst => ?_
    cases st with
    | idle => exact ⟨hf, Stage.take_spec hf i c.site⟩
    | asking j r left attempt => exact ⟨hf, .of_eq hst rfl⟩
    | judged j r left attempt j' => exact ⟨hf, .of_eq hst rfl⟩
    | closing j result => exact ⟨hf, .of_eq hst rfl⟩
    | counting => exact ⟨hf, .of_eq hst rfl⟩
    | joining flight => exact ⟨hf, .of_eq hst rfl⟩
  | go w => exact work_spec h w fun f st hf hst => Stage.go_spec hf h.ready hst
  | save =>
    have hstep : Step t file c.site [] c.site.persist.2 := .persist c.site
    have hcontent := h.ready.persist.2
    refine ⟨⟨hstep.ready h.ready, h.serves, fun w k st hw => ?_, h.alone, h.held⟩, [],
      .single hstep⟩
    refine (h.holds w k st hw).of_spares fun i hi => ⟨?_, fun hm => ?_⟩
    · exact (h.holds w k st hw).fetching hi
    · show t.Matches (file.content c.site.persist.2.disk) i
      rw [hcontent]
      exact hm

theorem turns_spec (turns : List Turn) (h : c.Sound t file) :
    Sound t file (c.turns turns) ∧ ∃ cs, Run t file c.site cs (c.turns turns).site := by
  induction turns generalizing c with
  | nil => exact ⟨h, [], .nil _⟩
  | cons turn rest ih =>
    obtain ⟨hturn, cs, hrun⟩ := turn_spec h turn
    obtain ⟨hrest, cs', hrun'⟩ := ih hturn
    exact ⟨hrest, cs ++ cs', hrun.trans hrun'⟩

omit [RangeSource σ] in
/-- Workers that have not begun are a sound crew on a calm site. -/
theorem sound_start {fetchers : List Fetcher} (hs : Calm file s)
    (hf : ∀ f ∈ fetchers, f.Serves t file) (ks : List Nat) :
    Sound t file { site := s, fetchers, workers := ks.map fun k => (k, .idle) } := by
  have hidle : ∀ (w k : Nat) (st : Stage), (ks.map fun k => (k, Stage.idle))[w]? = some (k, st) →
      st = .idle := by
    intro w k st hw
    rw [List.getElem?_map, Option.map_eq_some_iff] at hw
    obtain ⟨k', -, he⟩ := hw
    cases he
    rfl
  have hnone : ∀ w i, chunkOf { site := s, fetchers, workers := ks.map fun k => (k, .idle) } w ≠
      some i := by
    intro w i hi
    obtain ⟨k, st, hw, hst⟩ := chunkOf_eq_some_iff.1 hi
    rw [hidle w k st hw] at hst
    cases hst
  refine ⟨hs.toReady, hf, fun w k st hw => ?_, fun w w' i hi => absurd hi (hnone w i), ?_⟩
  · rw [hidle w k st hw]
    exact trivial
  · rw [hs.idle]
    exact fun e he => absurd he List.not_mem_nil

omit [RangeSource σ] in
/-- When nobody is at work any more, nothing is in flight. -/
theorem Sound.calm (h : c.Sound t file) (hrest : c.atRest = true) : Calm file c.site := by
  refine ⟨h.ready, List.eq_nil_iff_forall_not_mem.2 fun e he => ?_⟩
  obtain ⟨w, hw⟩ := h.held e he
  obtain ⟨k, st, hw, hst⟩ := chunkOf_eq_some_iff.1 hw
  have hidle := List.all_eq_true.1 hrest _ (List.mem_of_getElem? hw)
  cases st with
  | idle => cases hst
  | asking i r left attempt => cases hidle
  | judged i r left attempt j => cases hidle
  | closing i result => cases hidle
  | counting => cases hst
  | joining flight => cases hst

/-- Workers that all come to an end lead from a calm site to a calm site, in
whatever order they take turns. -/
theorem turns_leads {fetchers : List Fetcher} (hf : ∀ f ∈ fetchers, f.Serves t file)
    (ks : List Nat) (turns : List Turn) (s : Site σ)
    (hrest : (Crew.turns turns ⟨s, fetchers, ks.map fun k => (k, .idle)⟩).atRest = true) :
    Leads t file s (Crew.turns turns ⟨s, fetchers, ks.map fun k => (k, .idle)⟩).site := by
  intro hs
  obtain ⟨hsound, cs, hrun⟩ := turns_spec turns (sound_start hs hf ks)
  exact ⟨hsound.calm hrest, cs, hrun⟩

end Crew
end VerifiedCopy
