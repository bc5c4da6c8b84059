/-
# Workers that share a fetcher

The workers of a job, the jobs that read ahead and whoever reads are at work side by side
on one fetcher, and each can be held up between any two of its moves. To fetch a chunk
takes the moves of a stage (`Stage.take`, `Stage.go`). What comes after it is cut into
moves here: the chunk is counted, which is one step for all, and then the ledger is saved
if it is time, while others go on counting. In the same way a flush starts the count again
and then saves, and a chunk is checked first and its verdict taken back then.

Savings exclude one another, and what is saved is the ledger as it is when the saving gets
its turn; so a saving is one move.

What is done with the count and the sidecar is put down in a journal (`Note`). A worker
alone does what the operations of its fetcher do, so whatever is done with a reader is done
by a team of one worker (`routine_alone`).

Key definitions: `Fetcher.count`, `Duty`, `Act`, `Note`, `Team`, `Team.turns`.
Key theorems: `noteFetched_eq_count`, `alone_trial`, `routine_alone`.
-/
import VerifiedCopy.Proofs.Crew
import VerifiedCopy.Proofs.Closing

namespace VerifiedCopy

variable {σ : Type}

/-! ### The moves of a fetcher -/

namespace Fetcher

/-- Count one fetched chunk. True if it is time to save the ledger; the count starts
again then. -/
def count (f : Fetcher) : Bool × Fetcher :=
  if f.persistEvery ≤ f.sincePersist + 1 then (true, { f with sincePersist := 0 })
  else (false, { f with sincePersist := f.sincePersist + 1 })

theorem noteFetched_eq_count (f : Fetcher) (s : Site σ) : f.noteFetched s =
    if f.count.1 = true then (s.persist.1, f.count.2, s.persist.2) else (.ok (), f.count.2, s) := by
  unfold noteFetched count
  split <;> rfl

end Fetcher

/-! ### A team -/

/-- What a worker is at. -/
inductive Duty where
  /-- It is bringing in a chunk, or is idle. -/
  | fetching (st : Stage)
  /-- The local bytes of chunk `i` did not pass, and the verdict is to be taken back. -/
  | objecting (i : Nat)
  /-- The ledger is to be saved. -/
  | saving

/-- What a worker does next. All but the next move of its duty takes an idle worker. -/
inductive Act where
  /-- Turn to chunk `i`. -/
  | fetch (i : Nat)
  /-- Check chunk `i` again. -/
  | recheck (i : Nat)
  /-- Start the count again, to save the ledger then. -/
  | flush
  /-- Read local bytes. -/
  | read (range : ByteRange)
  /-- Make the next move. -/
  | go

/-- What is put down of a move that has to do with the count or the sidecar. -/
inductive Note where
  /-- A fetched chunk was counted, and it was time to save the ledger or not. -/
  | counted (due : Bool)
  /-- The count was started again by a flush. -/
  | flushed
  /-- The ledger was saved. -/
  | saved
deriving DecidableEq

namespace Duty

/-- Nothing to do. -/
abbrev idle : Duty := fetching .idle

/-- The chunk whose ticket the worker holds. -/
def chunk? : Duty → Option Nat
  | fetching st => st.chunk?
  | objecting _ | saving => none

/-- Whether a fetched chunk is to be counted. -/
def isCounting : Duty → Bool
  | fetching .counting => true
  | _ => false

/-- Whether the ledger is to be saved. -/
def isSaving : Duty → Bool
  | saving => true
  | _ => false

variable [RangeSource σ]

/-- The next move of a worker. -/
def go (f : Fetcher) (s : Site σ) : Duty → Option Note × Duty × Fetcher × Site σ
  | fetching .counting =>
    let (due, f) := f.count
    (some (.counted due), if due then saving else idle, f, s)
  | fetching st =>
    let (st, f, s) := st.go f s
    (none, fetching st, f, s)
  | objecting i => (none, idle, f, Fetcher.takeBack i s)
  | saving => (some .saved, idle, f, s.persist.2)

/-- What a worker does, and what is put down of it. -/
def act (f : Fetcher) (s : Site σ) : Act → Duty → Option Note × Duty × Fetcher × Site σ
  | .go, duty => duty.go f s
  | .fetch i, fetching .idle =>
    let (st, s) := Stage.take f i s
    (none, fetching st, f, s)
  | .recheck i, fetching .idle =>
    let (bad, s) := f.look i s
    (none, if bad then objecting i else idle, f, s)
  | .flush, fetching .idle => (some .flushed, saving, { f with sincePersist := 0 }, s)
  | .read range, fetching .idle =>
    (none, idle, f, { s with disk := (f.localFile.readRange range s.disk).2 })
  | _, duty => (none, duty, f, s)

end Duty

/-- Workers that share a fetcher, and the journal, the latest note first. -/
structure Team (σ : Type) where
  site : Site σ
  fetcher : Fetcher
  duties : List Duty
  journal : List Note := []

namespace Team

variable [RangeSource σ]

/-- The team after worker `w` has done something, if there is one. -/
def turn (c : Team σ) (w : Nat) (a : Act) : Team σ :=
  match c.duties[w]? with
  | none => c
  | some duty =>
    let (note, duty, f, s) := duty.act c.fetcher c.site a
    { site := s, fetcher := f, duties := c.duties.set w duty, journal := note.toList ++ c.journal }

/-- The team after some turns, each of them what some worker does next. -/
def turns : List (Nat × Act) → Team σ → Team σ
  | [], c => c
  | (w, a) :: rest, c => turns rest (c.turn w a)

theorem turns_append (l l' : List (Nat × Act)) (c : Team σ) :
    turns (l ++ l') c = turns l' (turns l c) := by
  induction l generalizing c with
  | nil => rfl
  | cons a l ih => exact ih (c.turn a.1 a.2)

/-! ### A worker alone -/

/-- The team of one worker. -/
abbrev solo (f : Fetcher) (s : Site σ) (duty : Duty) (journal : List Note) : Team σ :=
  { site := s, fetcher := f, duties := [duty], journal }

end Team

namespace Stage

variable [RangeSource σ]

theorem solo_idle (n : Nat) (f : Fetcher) (s : Site σ) :
    solo n (idle, f, s) = (idle, f, s) := by
  induction n with
  | zero => rfl
  | succ n ih => exact ih

end Stage

namespace Fetcher

variable [RangeSource σ] {f f' f'' : Fetcher} {s s' s'' : Site σ} {i : Nat}

/-- As long as a worker has not come to the end of its fetch, its moves are those of its
stage. -/
theorem turns_of_solo {n : Nat} {st : Stage} {result : Except Error Nat}
    (h : Stage.solo n (st, f, s) = (.closing i result, f', s')) (journal : List Note) :
    Team.turns (List.replicate n (0, .go)) (.solo f s (.fetching st) journal) =
      .solo f' s' (.fetching (.closing i result)) journal := by
  induction n generalizing st f s with
  | zero =>
    cases h
    rfl
  | succ n ih =>
    cases st with
    | counting =>
      -- From here on the worker is idle.
      have hidle : Stage.solo n (.idle, (f.noteFetched s).2) = (.closing i result, f', s') := h
      rw [Stage.solo_idle] at hidle
      cases hidle
    | idle | asking | judged | joining => exact ih h
    | closing j result => exact ih h

/-- From one idle worker to another, if nothing is in flight. -/
def Alone (f : Fetcher) (s : Site σ) (f' : Fetcher) (s' : Site σ) : Prop :=
  (∀ i, s.ledger.state i ≠ .fetching) → (∀ i, s'.ledger.state i ≠ .fetching) ∧
    ∀ journal, ∃ turns journal', Team.turns turns (.solo f s .idle journal) =
      .solo f' s' .idle journal'

theorem alone_refl (f : Fetcher) (s : Site σ) : Alone f s f s :=
  fun hidle => ⟨hidle, fun journal => ⟨[], journal, rfl⟩⟩

theorem Alone.trans (h : Alone f s f' s') (h' : Alone f' s' f'' s'') : Alone f s f'' s'' := by
  intro hidle
  obtain ⟨hidle', hturns⟩ := h hidle
  obtain ⟨hidle'', hturns'⟩ := h' hidle'
  refine ⟨hidle'', fun journal => ?_⟩
  obtain ⟨l, journal', hl⟩ := hturns journal
  obtain ⟨l', journal'', hl'⟩ := hturns' journal'
  exact ⟨l ++ l', journal'', by rw [Team.turns_append, hl, hl']⟩

/-- The attempts to fetch a chunk that nobody holds, up to where the ticket is used up. -/
theorem turns_fetch (hc : s.ledger.claim i = (.ok (.owner ⟨i⟩), s.ledger.depart i))
    (journal : List Note) : ∃ turns, Team.turns turns (.solo f s .idle journal) =
      .solo f (f.fetchVerified ⟨i⟩ { s with ledger := s.ledger.depart i }).2
        (.fetching (.closing i (f.fetchVerified ⟨i⟩ { s with ledger := s.ledger.depart i }).1))
        journal := by
  have htake : (Team.solo f s .idle journal).turn 0 (.fetch i) =
      .solo f (Stage.take f i s).2 (.fetching (Stage.take f i s).1) journal := rfl
  unfold Stage.take at htake
  rw [hc] at htake
  unfold fetchVerified
  dsimp only at htake ⊢
  cases hr : f.layout.chunkRange? i with
  | none =>
    rw [hr] at htake
    exact ⟨[(0, .fetch i)], htake⟩
  | some r =>
    rw [hr] at htake
    obtain ⟨n, hn⟩ := Stage.solo_attempts f i r f.config.maxRetries.toNat 1
      { s with ledger := s.ledger.depart i }
    refine ⟨(0, .fetch i) :: List.replicate n (0, .go), ?_⟩
    show Team.turns (List.replicate n (0, .go))
      ((Team.solo f s .idle journal).turn 0 (.fetch i)) = _
    rw [htake]
    exact turns_of_solo hn journal

/-- A fetched chunk is counted. -/
theorem turns_count (f : Fetcher) (s : Site σ) (journal : List Note) : ∃ turns journal',
    Team.turns turns (.solo f s (.fetching .counting) journal) =
      .solo (f.noteFetched s).2.1 (f.noteFetched s).2.2 .idle journal' := by
  rw [noteFetched_eq_count]
  have hcount : (Team.solo f s (.fetching .counting) journal).turn 0 .go =
      .solo f.count.2 s (if f.count.1 = true then .saving else .idle)
        (.counted f.count.1 :: journal) := rfl
  cases hdue : f.count.1 with
  | false =>
    rw [hdue] at hcount
    exact ⟨[(0, .go)], _, hcount⟩
  | true =>
    rw [hdue] at hcount
    refine ⟨[(0, .go), (0, .go)], .saved :: .counted true :: journal, ?_⟩
    show ((Team.solo f s (.fetching .counting) journal).turn 0 .go).turn 0 .go = _
    rw [hcount]
    rfl

/-- The ticket of a chunk in flight is used up, and the chunk counted if it was fetched. -/
theorem turns_fulfil (hi : s.ledger.state i = .fetching) (f : Fetcher) (journal : List Note) :
    ∃ turns journal', Team.turns turns (.solo f (f.fetchVerified ⟨i⟩ s).2
        (.fetching (.closing i (f.fetchVerified ⟨i⟩ s).1)) journal) =
      match f.fulfil ⟨i⟩ s with
      | (.ok (.fetched _), s) => .solo (f.noteFetched s).2.1 (f.noteFetched s).2.2 .idle journal'
      | (_, s) => .solo f s .idle journal' := by
  obtain ⟨-, hfetch⟩ := f.fetchVerified_keeps hi
  unfold fulfil
  rcases hv : f.fetchVerified ⟨i⟩ s with ⟨e | n, s'⟩
  · rw [hv] at hfetch
    have hok := Ledger.settle_of_fetching hfetch (.error e)
    dsimp only [Ticket.failed]
    rw [hok]
    exact ⟨[(0, .go)], journal, rfl⟩
  · rw [hv] at hfetch
    have hok := Ledger.settle_of_fetching hfetch (.ok ())
    dsimp only [Ticket.verified]
    rw [hok]
    have hclose : (Team.solo f s' (.fetching (.closing i (.ok n))) journal).turn 0 .go =
        .solo f { s' with ledger := (s'.ledger.settle i (.ok ())).2 }
          (.fetching (if (s'.ledger.settle i (.ok ())).1.isOk then .counting else .idle)) journal :=
      rfl
    rw [hok] at hclose
    obtain ⟨turns, journal', hturns⟩ :=
      f.turns_count { s' with ledger := (s'.ledger.settle i (.ok ())).2 } journal
    refine ⟨(0, .go) :: turns, journal', ?_⟩
    show Team.turns turns ((Team.solo f s' (.fetching (.closing i (.ok n))) journal).turn 0 .go) = _
    rw [hclose]
    exact hturns

/-- Alone, a worker that turns to a chunk tries it. -/
theorem alone_trial (f : Fetcher) (i : Nat) (s : Site σ) :
    Alone f s (f.trial i s).2.1 (f.trial i s).2.2 := by
  intro hidle
  have htried := f.trial_spec i s
  refine ⟨fun j => ?_, fun journal => ?_⟩
  · by_cases hji : j = i
    · rw [hji]
      exact htried.landed (hidle i)
    · rw [htried.ledger.state j hji]
      exact hidle j
  · unfold trial ensure
    rcases hc : s.ledger.claim i with ⟨e | c, g⟩
    · exact ⟨[], journal, rfl⟩
    · cases c with
      | verified =>
        obtain ⟨rfl, -⟩ := Ledger.claim_eq_verified hc
        exact ⟨[], journal, rfl⟩
      | inFlight flight => exact absurd (Ledger.fetching_of_claim hc) (hidle i)
      | owner ticket =>
        obtain ⟨rfl, hi, -, -, rfl⟩ := Ledger.claim_eq_owner hc
        have hfetch : (s.ledger.depart i).state i = .fetching :=
          (Ledger.state_depart hi i).trans (if_pos rfl)
        obtain ⟨l, hl⟩ := turns_fetch hc journal
        obtain ⟨l', journal', hl'⟩ :=
          turns_fulfil (s := { s with ledger := s.ledger.depart i }) hfetch f journal
        refine ⟨l ++ l', journal', ?_⟩
        rw [Team.turns_append, hl, hl']
        dsimp only [pursue]
        rcases f.fulfil ⟨i⟩ { s with ledger := s.ledger.depart i } with ⟨e | out, s'⟩
        · rfl
        · cases out <;> rfl

/-- Alone, a worker that checks a chunk takes its verdict back at once. -/
theorem alone_recheck (f : Fetcher) (i : Nat) (s : Site σ) : Alone f s f (f.recheck i s).2 := by
  intro hidle
  obtain ⟨hledger, -⟩ := f.look_spec i s
  have hlook : ∀ journal, (Team.solo f s .idle journal).turn 0 (.recheck i) =
      .solo f (f.look i s).2 (if (f.look i s).1 = true then .objecting i else .idle) journal :=
    fun _ => rfl
  rw [recheck_eq_look]
  rcases hl : f.look i s with ⟨_ | _, s'⟩
  · rw [hl] at hledger hlook
    refine ⟨fun j => ?_, fun journal => ⟨[(0, .recheck i)], journal, hlook journal⟩⟩
    rw [hledger]
    exact hidle j
  · rw [hl] at hledger hlook
    refine ⟨fun j => ?_, fun journal => ⟨[(0, .recheck i), (0, .go)], journal, ?_⟩⟩
    · show (s'.ledger.demote i).2.state j ≠ .fetching
      rw [hledger]
      exact Ledger.state_demote_ne_fetching (hidle j)
    · show ((Team.solo f s .idle journal).turn 0 (.recheck i)).turn 0 .go = _
      rw [hlook]
      rfl

/-- All that is done with jobs and readers, a worker alone can do. -/
theorem routine_alone : Routine (σ := σ) Alone where
  refl := alone_refl
  trans := Alone.trans
  trial := alone_trial
  recheck := alone_recheck
  flush _ _ hidle := ⟨hidle, fun journal =>
    ⟨[(0, .flush), (0, .go)], .saved :: .flushed :: journal, rfl⟩⟩
  look _ range _ hidle := ⟨hidle, fun journal => ⟨[(0, .read range)], journal, rfl⟩⟩

end Fetcher
end VerifiedCopy
