/-
# What becomes of a transfer

A transfer tries the chunks in its queue one after the other. To try a chunk is to
make sure of it and to count it if it was fetched (`Fetcher.trial`); the trial
fails if either does. A course is a list of chunks that are tried in that order,
with the failure that ended it: only the last trial of a course can fail
(`Course`). So a course says at once which chunks were tried and which failure was
the first.

Whatever the source and the disk do, and wherever the transfer is cancelled, the
chunks that it tries are a course through the front of its queue
(`advance_course`), and its result is read off the course, the last saving of the
ledger and what is left in the queue (`transfer_outcome`).

Key definitions: `Fetcher.trial`, `Course`, `Fetcher.transfer`, `Ledger.Used`,
`Ledger.Awaitable`.
Key theorems: `trial_spec`, `Course.requests`, `Course.verified`,
`advance_course`, `transfer_outcome`.
-/
import VerifiedCopy.Job
import VerifiedCopy.Proofs.Ensuring
import VerifiedCopy.Proofs.Session

namespace VerifiedCopy

variable {σ : Type}

/-- The failure in a result, if there is one. -/
def failure? : Except Error Unit → Option Error
  | .ok () => none
  | .error e => some e

/-- Chunks lie in the order of their numbers. -/
theorem Layout.start_le_of_le {l : Layout} {i j : Nat} {r r' : ByteRange}
    (hi : l.chunkRange? i = some r) (hj : l.chunkRange? j = some r') (h : i ≤ j) :
    r.start ≤ r'.start := by
  obtain ⟨-, hstart, -⟩ := Layout.chunkRange?_eq_some_iff.1 hi
  obtain ⟨-, hstart', -⟩ := Layout.chunkRange?_eq_some_iff.1 hj
  rw [hstart, hstart']
  exact Nat.mul_le_mul_right l.chunkSize h

namespace Ledger

/-- A ledger that was new or restored once, and has been used since. It is kept in
some sidecar or in memory only. -/
def Used (g : Ledger) : Prop :=
  ∃ g₀ calls p, Fresh g₀ ∧ g = { (g₀.after calls).ledger with path := p }

/-- Flights are accounted for on every ledger that somebody can have. -/
theorem Used.tracks {g : Ledger} (h : g.Used) : g.Tracks := by
  obtain ⟨g₀, calls, p, hfresh, rfl⟩ := h
  have ht : (g₀.after calls).ledger.Tracks := Desk.run_tracks calls hfresh.tracks
  exact ht.quiet (fun _ => rfl) rfl

/-- Who has to wait for a chunk is told what becomes of it, or nobody has to wait. -/
def Awaitable (g : Ledger) : Prop :=
  g.Tracks ∨ ∀ i, g.state i ≠ .fetching

theorem Awaitable.onlyAt {g g' : Ledger} {i : Nat} (h : g.Awaitable) (hi : g.OnlyAt i g')
    (hlanded : g.state i ≠ .fetching → g'.state i ≠ .fetching) : g'.Awaitable := by
  refine h.imp hi.tracks fun hidle j => ?_
  by_cases hji : j = i
  · rw [hji]
    exact hlanded (hidle i)
  · rw [hi.state j hji]
    exact hidle j

end Ledger

/-! ### One chunk -/

namespace Fetcher

/-- Saving the ledger changes neither the ledger nor the source, and what is
counted has no part in the layout. -/
theorem noteFetched_quiet (f : Fetcher) (s : Site σ) :
    (f.noteFetched s).2.1.layout = f.layout ∧ (f.noteFetched s).2.2.ledger = s.ledger ∧
      (f.noteFetched s).2.2.source = s.source := by
  unfold noteFetched
  split
  · exact ⟨rfl, rfl, rfl⟩
  · exact ⟨rfl, rfl, rfl⟩

variable [RangeSource σ]

/-- Try to bring in chunk `i`: make sure of it, and count it if it was fetched. -/
def trial (f : Fetcher) (i : Nat) (s : Site σ) : Option Error × Fetcher × Site σ :=
  match f.ensure i s with
  | (.error e, s) => (some e, f, s)
  | (.ok (.fetched _), s) =>
    match f.noteFetched s with
    | (r, f, s) => (failure? r, f, s)
  | (.ok _, s) => (none, f, s)

variable {f f' f'' : Fetcher} {i j : Nat} {s s' s'' : Site σ}

/-- A trial of chunk `i` works on chunk `i` only. -/
structure Tried (i : Nat) (f : Fetcher) (s : Site σ) (e : Option Error) (f' : Fetcher)
    (s' : Site σ) : Prop where
  layout : f'.layout = f.layout
  ledger : s.ledger.OnlyAt i s'.ledger
  source : Asks (fun r => f.layout.chunkRange? i = some r) s.source s'.source
  stays : s.ledger.state i = .verified → s' = s
  landed : s.ledger.state i ≠ .fetching → s'.ledger.state i ≠ .fetching
  verified : s.ledger.Awaitable → e = none → s'.ledger.state i = .verified

theorem trial_spec (f : Fetcher) (i : Nat) (s : Site σ) :
    Tried i f s (f.trial i s).1 (f.trial i s).2.1 (f.trial i s).2.2 := by
  have hensured := f.ensure_cases i s
  unfold trial
  rcases he : f.ensure i s with ⟨r, s'⟩
  rw [he] at hensured
  dsimp only at hensured ⊢
  cases hensured with
  | outside h => exact ⟨rfl, .refl _, .none, fun _ => rfl, id, fun _ he => nomatch he⟩
  | already h => exact ⟨rfl, .refl _, .none, fun _ => rfl, id, fun _ _ => h⟩
  | @joined o _ h ht hs =>
    have hfree : s.ledger.state i = .verified → s' = s := fun hv => by rw [hv] at h; cases h
    have hland : s.ledger.state i ≠ .fetching → s'.ledger.state i ≠ .fetching := absurd h
    cases o with
    | error e => exact ⟨rfl, ht.ledger, ht.source, hfree, hland, fun _ he => nomatch he⟩
    | ok u =>
      exact ⟨rfl, ht.ledger, ht.source, hfree, hland, fun hwait _ =>
        hwait.elim hs fun hidle => absurd h (hidle i)⟩
  | fetched _ hv ht hs =>
    obtain ⟨hlayout, hledger, hsource⟩ := f.noteFetched_quiet s'
    refine ⟨hlayout, ?_, ?_, fun h => absurd h hv, fun _ => ?_, fun _ _ => ?_⟩
    · dsimp only
      rw [hledger]
      exact ht.ledger
    · dsimp only
      rw [hsource]
      exact ht.source
    · dsimp only
      rw [hledger, hs]
      decide
    · dsimp only
      rw [hledger]
      exact hs
  | failed _ hv ht hs =>
    refine ⟨rfl, ht.ledger, ht.source, fun h => absurd h hv, fun _ => ?_, fun _ he => nomatch he⟩
    dsimp only
    rw [hs]
    decide

/-- A verified chunk stays verified, whichever chunk is tried. -/
theorem Tried.keeps {e : Option Error} (h : Tried i f s e f' s')
    (hj : s.ledger.state j = .verified) : s'.ledger.state j = .verified := by
  by_cases hji : j = i
  · rw [hji] at hj
    rw [h.stays hj, hji]
    exact hj
  · rw [h.ledger.state j hji]
    exact hj

end Fetcher

/-! ### One chunk after the other -/

section Course

open Fetcher (Tried)

variable [RangeSource σ] {f f' f'' : Fetcher} {i : Nat} {s s' s'' : Site σ} {tried : List Nat}
  {e : Option Error}

/-- Chunks are tried in the order of the list, and nothing fails before the last
of them. -/
inductive Course : List Nat → Fetcher → Site σ → Option Error → Fetcher → Site σ → Prop
  | done {f : Fetcher} {s : Site σ} : Course [] f s none f s
  | next {i : Nat} {rest : List Nat} {f f' f'' : Fetcher} {s s' s'' : Site σ} {e : Option Error}
      (h : f.trial i s = (none, f', s')) (hrest : Course rest f' s' e f'' s'') :
      Course (i :: rest) f s e f'' s''
  | fails {i : Nat} {f f' : Fetcher} {s s' : Site σ} {e : Error}
      (h : f.trial i s = (some e, f', s')) : Course [i] f s (some e) f' s'

theorem tried_of_eq (h : f.trial i s = (e, f', s')) : Tried i f s e f' s' := by
  have hspec := f.trial_spec i s
  rw [h] at hspec
  exact hspec

namespace Course

/-- A chunk that is not tried keeps its state. -/
theorem state (h : Course tried f s e f' s') {j : Nat} (hj : j ∉ tried) :
    s'.ledger.state j = s.ledger.state j := by
  induction h with
  | done => rfl
  | next h _ ih =>
    rw [List.mem_cons, not_or] at hj
    exact (ih hj.2).trans ((tried_of_eq h).ledger.state j hj.1)
  | fails h => exact (tried_of_eq h).ledger.state j (mt List.mem_singleton.2 hj)

/-- A verified chunk stays verified. -/
theorem keeps (h : Course tried f s e f' s') {j : Nat} (hj : s.ledger.state j = .verified) :
    s'.ledger.state j = .verified := by
  induction h with
  | done => exact hj
  | next h _ ih => exact ih ((tried_of_eq h).keeps hj)
  | fails h => exact (tried_of_eq h).keeps hj

/-- If nothing fails, the chunks that are tried are verified in the end. -/
theorem verified (h : Course tried f s none f' s') (ht : s.ledger.Awaitable) :
    ∀ i ∈ tried, s'.ledger.state i = .verified := by
  generalize he : none = e at h
  induction h with
  | done => exact List.forall_mem_nil _
  | next h hrest ih =>
    have hfirst := tried_of_eq h
    rw [List.forall_mem_cons]
    exact ⟨hrest.keeps (hfirst.verified ht rfl), ih (ht.onlyAt hfirst.ledger hfirst.landed) he⟩
  | fails h => cases he

/-- A source that keeps a log was asked for the chunks that were tried, and in
their order. -/
theorem requests {σ : Type} [RangeSource σ] {s s' : Site (Logged σ)}
    (h : Course tried f s e f' s') :
    ∃ rs, s'.source.requests = s.source.requests ++ rs ∧
      (∀ r ∈ rs, ∃ i ∈ tried, f.layout.chunkRange? i = some r) ∧
      (tried.Pairwise (· < ·) → rs.Pairwise fun r r' => r.start ≤ r'.start) := by
  induction h with
  | done => exact ⟨[], (List.append_nil _).symm, List.forall_mem_nil _, fun _ => .nil⟩
  | @next i rest _ _ _ _ _ _ _ h hrest ih =>
    have hfirst := tried_of_eq h
    obtain ⟨rs, hrs, hmem⟩ := hfirst.source.requests
    obtain ⟨rs', hrs', hmem', hsorted'⟩ := ih
    rw [hfirst.layout] at hmem'
    refine ⟨rs ++ rs', by rw [hrs', hrs, List.append_assoc], ?_, fun hsorted => ?_⟩
    · rw [List.forall_mem_append]
      refine ⟨fun r hr => ⟨i, List.mem_cons_self, hmem r hr⟩, fun r hr => ?_⟩
      obtain ⟨k, hk, hrange⟩ := hmem' r hr
      exact ⟨k, List.mem_cons_of_mem _ hk, hrange⟩
    · obtain ⟨hlt, hsorted⟩ := List.pairwise_cons.1 hsorted
      refine List.pairwise_append.2 ⟨?_, hsorted' hsorted, fun r hr r' hr' => ?_⟩
      · refine List.pairwise_of_forall_mem_list fun r hr r' hr' => ?_
        exact Layout.start_le_of_le (hmem r hr) (hmem r' hr') (Nat.le_refl i)
      · obtain ⟨k, hk, hrange⟩ := hmem' r' hr'
        exact Layout.start_le_of_le (hmem r hr) hrange (Nat.le_of_lt (hlt k hk))
  | @fails i _ _ _ _ _ h =>
    obtain ⟨rs, hrs, hmem⟩ := (tried_of_eq h).source.requests
    refine ⟨rs, hrs, fun r hr => ⟨i, List.mem_singleton_self i, hmem r hr⟩, fun _ => ?_⟩
    refine List.pairwise_of_forall_mem_list fun r hr r' hr' => ?_
    exact Layout.start_le_of_le (hmem r hr) (hmem r' hr') (Nat.le_refl i)

/-- What comes after the first chunks of a course is a course. -/
theorem rest {before after : List Nat} (h : Course (before ++ after) f s e f' s')
    (hbefore : Course before f s none f'' s'') : Course after f'' s'' e f' s' := by
  generalize hnone : none = e' at hbefore
  induction hbefore with
  | done => exact h
  | @next i before _ _ _ _ _ _ _ hfirst _ ih =>
    generalize htried : (i :: before) ++ after = tried at h
    cases h with
    | done => cases htried
    | next hfirst' hrest =>
      cases htried
      rw [hfirst] at hfirst'
      cases hfirst'
      exact ih hrest hnone
    | fails hfirst' =>
      obtain ⟨rfl, -⟩ := List.cons.inj htried
      rw [hfirst] at hfirst'
      cases hfirst'
  | fails => cases hnone

end Course
end Course

/-! ### Jobs -/

namespace Job

variable [RangeSource σ] {f : Fetcher} {s : Site σ} {j : Job} {i : Nat}

/-- To bring in a chunk is to try it, and to stop if that fails. -/
theorem carryOut_eq (j : Job) (i : Nat) (f : Fetcher) (s : Site σ) :
    (j.carryOut i f s).2 = (f.trial i s).2 ∧
      (j.carryOut i f s).1.queue = j.queue ∧
      (j.carryOut i f s).1.failure = j.failure.or (f.trial i s).1 ∧
      (j.carryOut i f s).1.stopped = (j.stopped || (f.trial i s).1.isSome) := by
  unfold carryOut Fetcher.trial
  rcases f.ensure i s with ⟨e | out, s'⟩
  · exact ⟨rfl, rfl, rfl, (Bool.or_true _).symm⟩
  · cases out with
    | alreadyVerified => exact ⟨rfl, rfl, (Option.or_none).symm, (Bool.or_false _).symm⟩
    | joined => exact ⟨rfl, rfl, (Option.or_none).symm, (Bool.or_false _).symm⟩
    | fetched n =>
      simp only [record]
      rcases f.noteFetched s' with ⟨e | u, f', s''⟩
      · exact ⟨rfl, rfl, rfl, (Bool.or_true _).symm⟩
      · exact ⟨rfl, rfl, (Option.or_none).symm, (Bool.or_false _).symm⟩

/-- A job that has stopped takes no more chunks. -/
theorem advance_of_stopped (h : j.stopped = true) (n : Nat) (f : Fetcher) (s : Site σ) :
    j.advance n f s = (j, f, s) := by
  cases n with
  | zero => rfl
  | succ n =>
    unfold advance next
    rw [if_pos h]

/-- A job that has been at work: it went through the chunks `tried`, the others are
left in the queue, and it has stopped if something failed. -/
structure After (j : Job) (tried left : List Nat) (f : Fetcher) (s : Site σ) (j' : Job)
    (f' : Fetcher) (s' : Site σ) : Prop where
  split : j.queue = tried ++ left
  course : Course tried f s j'.failure f' s'
  queue : j'.queue = left
  stopped : j'.stopped = j'.failure.isSome

/-- The first `n` chunks of the queue are tried, or those up to the first failure. -/
theorem advance_course (n : Nat) (hstop : j.stopped = false) (hfail : j.failure = none)
    (f : Fetcher) (s : Site σ) :
    ∃ tried left, After j tried left f s (j.advance n f s).1 (j.advance n f s).2.1
        (j.advance n f s).2.2 ∧
      ((j.advance n f s).1.failure = none → left = j.queue.drop n) := by
  induction n generalizing j f s with
  | zero =>
    refine ⟨[], j.queue, ⟨rfl, ?_, rfl, ?_⟩, fun _ => rfl⟩
    · show Course [] f s j.failure f s
      rw [hfail]
      exact .done
    · show j.stopped = j.failure.isSome
      rw [hstop, hfail]
      rfl
  | succ n ih =>
    unfold advance next
    rw [if_neg (by rw [hstop]; exact Bool.false_ne_true)]
    cases hq : j.queue with
    | nil =>
      refine ⟨[], [], ⟨by rw [hq]; rfl, ?_, hq, ?_⟩, fun _ => rfl⟩
      · show Course [] f s j.failure f s
        rw [hfail]
        exact .done
      · show j.stopped = j.failure.isSome
        rw [hstop, hfail]
        rfl
    | cons i rest =>
      dsimp only
      obtain ⟨hsite, hqueue, hfailure, hstopped⟩ := carryOut_eq { j with queue := rest } i f s
      rcases hc : { j with queue := rest }.carryOut i f s with ⟨j', f', s'⟩
      rw [hc] at hsite hqueue hfailure hstopped ⊢
      dsimp only at hsite hqueue hfailure hstopped ⊢
      rw [hfail, Option.none_or] at hfailure
      rw [hstop, Bool.false_or, ← hfailure] at hstopped
      have htrial : f.trial i s = (j'.failure, f', s') := by rw [hfailure, hsite]
      cases he : j'.failure with
      | none =>
        rw [he] at htrial hstopped
        obtain ⟨tried, left, hafter, hleft⟩ := ih hstopped he f' s'
        have hsplit := hafter.split
        rw [hqueue] at hsplit
        refine ⟨i :: tried, left, ⟨?_, .next htrial hafter.course, hafter.queue,
          hafter.stopped⟩, fun hnone => ?_⟩
        · rw [hq, hsplit]
          rfl
        · rw [hleft hnone, hqueue]
          rfl
      | some e =>
        -- The job has stopped, so it takes no more chunks.
        rw [he] at htrial hstopped
        have hend : j'.advance n f' s' = (j', f', s') := advance_of_stopped hstopped n f' s'
        rw [hend]
        refine ⟨[i], rest, ⟨by rw [hq]; rfl, ?_, hqueue, ?_⟩, fun hnone => ?_⟩
        · show Course [i] f s j'.failure f' s'
          rw [he]
          exact .fails htrial
        · show j'.stopped = j'.failure.isSome
          rw [hstopped, he]
        · rw [he] at hnone
          cases hnone

omit [RangeSource σ] in
/-- What a job is done with that came to an end: with the first failure, or else
with success if nothing is left. -/
theorem finish_result (j : Job) (f : Fetcher) (s : Site σ) :
    (j.finish f s).2 = (f.flush s).2 ∧ (j.finish f s).1.result =
      some (match j.failure.or (failure? (f.flush s).1) with
        | some e => .failed e
        | none => if j.queue = [] then .success else .cancelled) := by
  unfold finish
  rcases f.flush s with ⟨e | u, f', s'⟩
  · refine ⟨rfl, ?_⟩
    simp only [fail, outcome, failure?]
    cases j.failure <;> rfl
  · refine ⟨rfl, ?_⟩
    simp only [outcome, failure?, Option.or_none]
    cases j.failure with
    | some e => rfl
    | none => cases j.queue <;> rfl

/-- With success nothing has failed and nothing is left. -/
theorem eq_nil_of_success {e e' : Option Error} {left : List Nat}
    (h : some (match e.or e' with
      | some e => JobResult.failed e
      | none => if left = [] then .success else .cancelled) = some .success) :
    e = none ∧ left = [] := by
  cases e with
  | some e => cases h
  | none =>
    cases e' with
    | some e' => cases h
    | none =>
      refine ⟨rfl, Classical.byContradiction fun hne => ?_⟩
      simp only [Option.or_none, if_neg hne] at h
      cases h

/-- Run a job that is cancelled after `cancelAt` chunks, or never. -/
def runUntil (j : Job) (cancelAt : Option Nat) (f : Fetcher) (s : Site σ) :
    Job × Fetcher × Site σ :=
  match cancelAt with
  | none => j.run f s
  | some n =>
    let (j, f, s) := j.advance n f s
    j.cancel.run f s

/-- The chunks of a queue that are left when the job is cancelled. -/
def leftAt (cancelAt : Option Nat) (queue : List Nat) : List Nat :=
  match cancelAt with
  | none => []
  | some n => queue.drop n

/-- A job that is run tries the chunks in front of its queue up to the first
failure, or up to where it is cancelled, and then ends. -/
theorem runUntil_course (cancelAt : Option Nat) (hstop : j.stopped = false)
    (hfail : j.failure = none) (f : Fetcher) (s : Site σ) :
    ∃ tried left j₁ f₁ s₁, After j tried left f s j₁ f₁ s₁ ∧
      (j₁.failure = none → left = leftAt cancelAt j.queue) ∧
      (j.runUntil cancelAt f s).2 = (f₁.flush s₁).2 ∧
      (j.runUntil cancelAt f s).1.result =
        some (match j₁.failure.or (failure? (f₁.flush s₁).1) with
          | some e => .failed e
          | none => if left = [] then .success else .cancelled) := by
  cases cancelAt with
  | none =>
    obtain ⟨tried, left, hafter, hleft⟩ := advance_course j.queue.length hstop hfail f s
    obtain ⟨hsite, hresult⟩ := finish_result (j.advance j.queue.length f s).1
      (j.advance j.queue.length f s).2.1 (j.advance j.queue.length f s).2.2
    rw [hafter.queue] at hresult
    refine ⟨tried, left, _, _, _, hafter, fun hnone => ?_, hsite, hresult⟩
    rw [hleft hnone, List.drop_length]
    rfl
  | some n =>
    obtain ⟨tried, left, hafter, hleft⟩ := advance_course n hstop hfail f s
    rcases hadvance : j.advance n f s with ⟨j₁, f₁, s₁⟩
    rw [hadvance] at hafter hleft
    have hend : j.runUntil (some n) f s = j₁.cancel.finish f₁ s₁ := by
      unfold runUntil run
      dsimp only
      rw [hadvance]
      dsimp only
      rw [advance_of_stopped (show j₁.cancel.stopped = true from rfl)]
    rw [hend]
    obtain ⟨hsite, hresult⟩ := finish_result j₁.cancel f₁ s₁
    rw [show j₁.cancel.queue = left from hafter.queue] at hresult
    exact ⟨tried, left, j₁, f₁, s₁, hafter, hleft, hsite, hresult⟩

/-! ### Creating a job -/

/-- The smallest number in a list depends on the numbers in it only. -/
theorem min?_congr {l l' : List Nat} (h : ∀ i, i ∈ l' ↔ i ∈ l) : l'.min? = l.min? := by
  cases hmin : l.min? with
  | none =>
    rw [List.min?_eq_none_iff] at hmin ⊢
    rw [List.eq_nil_iff_forall_not_mem]
    intro i hi
    rw [h i, hmin] at hi
    exact List.not_mem_nil hi
  | some m =>
    rw [List.min?_eq_some_iff] at hmin ⊢
    exact ⟨(h m).2 hmin.1, fun i hi => hmin.2 i ((h i).1 hi)⟩

theorem create_congr (l : Layout) (g : Ledger) {indices indices' : List Nat}
    (h : ∀ i, i ∈ indices' ↔ i ∈ indices) : create l g indices' = create l g indices := by
  have hwanted : wanted l indices' = wanted l indices := by
    unfold wanted
    refine List.filter_congr fun i _ => ?_
    rw [Bool.eq_iff_iff, List.contains_iff_mem, List.contains_iff_mem]
    exact h i
  have hmin : (indices'.filter fun i => l.chunkCount ≤ i).min? =
      (indices.filter fun i => l.chunkCount ≤ i).min? := by
    refine min?_congr fun i => ?_
    rw [List.mem_filter, List.mem_filter, h i]
  unfold create
  rw [hwanted, hmin]

/-- The smallest chunk that does not exist is named. -/
theorem create_of_outside {l : Layout} {indices : List Nat} {bad : Nat} (g : Ledger)
    (hmem : bad ∈ indices) (hout : l.chunkCount ≤ bad)
    (hleast : ∀ i ∈ indices, l.chunkCount ≤ i → bad ≤ i) : create l g indices =
      .error (.invalidConfiguration s!"chunk {bad} outside 0..{l.chunkCount}") := by
  have hmin : (indices.filter fun i => l.chunkCount ≤ i).min? = some bad := by
    rw [List.min?_eq_some_iff, List.mem_filter]
    refine ⟨⟨hmem, decide_eq_true hout⟩, fun i hi => ?_⟩
    rw [List.mem_filter] at hi
    exact hleast i hi.1 (of_decide_eq_true hi.2)
  unfold create
  rw [hmin]

/-- The chunks among `indices` that are not verified, in ascending order. -/
def pending (l : Layout) (g : Ledger) (indices : List Nat) : List Nat :=
  (List.range l.chunkCount).filter fun i => decide (i ∈ indices ∧ g.state i ≠ .verified)

theorem mem_pending_iff {l : Layout} {g : Ledger} {indices : List Nat} :
    i ∈ pending l g indices ↔ i < l.chunkCount ∧ i ∈ indices ∧ g.state i ≠ .verified := by
  unfold pending
  rw [List.mem_filter, List.mem_range, decide_eq_true_iff]

theorem pending_sorted (l : Layout) (g : Ledger) (indices : List Nat) :
    (pending l g indices).Pairwise (· < ·) :=
  List.pairwise_lt_range.filter _

theorem create_of_inside {l : Layout} {indices : List Nat} (g : Ledger)
    (hin : ∀ i ∈ indices, i < l.chunkCount) : ∃ j, create l g indices = .ok j ∧
      j.queue = pending l g indices ∧ j.stopped = false ∧ j.failure = none := by
  have hnone : (indices.filter fun i => l.chunkCount ≤ i).min? = none := by
    rw [List.min?_eq_none_iff, List.filter_eq_nil_iff]
    intro i hi
    rw [decide_eq_true_iff]
    exact Nat.not_le.2 (hin i hi)
  unfold create
  rw [hnone]
  refine ⟨_, rfl, ?_, rfl, rfl⟩
  unfold wanted pending
  rw [List.filter_filter]
  refine List.filter_congr fun i _ => ?_
  rw [Bool.eq_iff_iff, Bool.and_eq_true, List.contains_iff_mem]
  simp only [decide_eq_true_iff]
  exact and_comm

end Job

/-! ### Transfers -/

namespace Fetcher

variable [RangeSource σ] {f : Fetcher} {s : Site σ}

/-- Transfer some chunks, and cancel the transfer after `cancelAt` of those that are
not verified, or never. -/
def transfer (f : Fetcher) (cancelAt : Option Nat) (indices : List Nat) (s : Site σ) :
    Except Error Job × Fetcher × Site σ :=
  match Job.create f.layout s.ledger indices with
  | .error e => (.error e, f, s)
  | .ok j =>
    let (j, f, s) := j.runUntil cancelAt f s
    (.ok j, f, s)

end Fetcher

/-- A download is a transfer that is never cancelled. -/
theorem download_eq_transfer [RangeSource σ] {config : TransferConfig} {entry : Entry} {t : Tree}
    {file : LocalFile} {f : Fetcher} {s : Site σ} (hconfig : config.validate = .ok ())
    (hentry : entry.check t = .ok ()) (hf : Fetcher.create t s.ledger file config = .ok f)
    (indices : List Nat) : download config entry t file indices s =
      ((f.transfer none indices s).1, (f.transfer none indices s).2.2) := by
  have hprepare : prepareDownload config entry t s.ledger file indices =
      (Job.create f.layout s.ledger indices).map fun j => (f, j) := by
    unfold prepareDownload
    rw [hconfig, hentry, hf]
    show (Job.create f.layout s.ledger indices >>= fun j => pure (f, j)) = _
    cases Job.create f.layout s.ledger indices <;> rfl
  unfold download Fetcher.transfer
  rw [hprepare]
  cases Job.create f.layout s.ledger indices with
  | error e => rfl
  | ok j => rfl

/-- A range is prebuffered by a transfer of the chunks that it overlaps. -/
theorem Reader.prebuffer_eq_transfer [RangeSource σ] {r : Reader} {range : ByteRange}
    {s : Site σ} (hbounds : r.checkBounds range = .ok ()) :
    let (result, f, s') := r.fetcher.transfer none (r.fetcher.layout.overlapping range) s
    r.prebuffer range s = (result, { r with fetcher := f }, s') := by
  have hprepare : r.preparePrebuffer range s.ledger =
      Job.create r.fetcher.layout s.ledger (r.fetcher.layout.overlapping range) := by
    unfold preparePrebuffer startJob
    rw [hbounds]
    rfl
  unfold prebuffer Fetcher.transfer
  rw [hprepare]
  cases Job.create r.fetcher.layout s.ledger (r.fetcher.layout.overlapping range) with
  | error e => rfl
  | ok j => rfl

/-! ### The outcome -/

namespace Fetcher

/-- A transfer of chunks that exist, one course: the chunks `tried` up to the first
failure or up to where it is cancelled, the chunks `left`, and the ledger saved at
the end. -/
theorem transfer_course [RangeSource σ] {f : Fetcher} {s : Site σ} (cancelAt : Option Nat)
    {indices : List Nat} (hin : ∀ i ∈ indices, i < f.layout.chunkCount) :
    ∃ job tried left e f₁ s₁, tried ++ left = Job.pending f.layout s.ledger indices ∧
      (e = none → left = Job.leftAt cancelAt (Job.pending f.layout s.ledger indices)) ∧
      Course tried f s e f₁ s₁ ∧
      f.transfer cancelAt indices s = (.ok job, (f₁.flush s₁).2) ∧
      job.result = some (match e.or (failure? (f₁.flush s₁).1) with
        | some e => .failed e
        | none => if left = [] then .success else .cancelled) := by
  obtain ⟨j, hcreate, hqueue, hstop, hfail⟩ := Job.create_of_inside s.ledger hin
  obtain ⟨tried, left, j₁, f₁, s₁, hafter, hleft, hsite, hresult⟩ :=
    Job.runUntil_course cancelAt hstop hfail f s
  rw [hqueue] at hleft
  refine ⟨(j.runUntil cancelAt f s).1, tried, left, j₁.failure, f₁, s₁,
    hafter.split.symm.trans hqueue, hleft, hafter.course, ?_, hresult⟩
  unfold transfer
  rw [hcreate, ← hsite]

/-- The outcome of a transfer, whatever the source answers, whichever savings of the
ledger fail and wherever the transfer is cancelled.

The order of `indices` and how often a chunk is named make no difference. If a chunk
does not exist, the smallest such is named and nothing happens. Otherwise the chunks
that are not verified are tried in ascending order, up to the first failure of a chunk
or of a saving, or up to where the transfer is cancelled; the others are not asked for
and keep their states. -/
theorem transfer_outcome [RangeSource σ] {f : Fetcher} {s : Site (Logged σ)}
    (hs : s.ledger.Used) (cancelAt : Option Nat) (indices : List Nat) :
    (∀ indices', (∀ i, i ∈ indices' ↔ i ∈ indices) →
      f.transfer cancelAt indices' s = f.transfer cancelAt indices s) ∧
    (∀ bad ∈ indices, f.layout.chunkCount ≤ bad →
      (∀ i ∈ indices, f.layout.chunkCount ≤ i → bad ≤ i) → f.transfer cancelAt indices s =
        (.error (.invalidConfiguration s!"chunk {bad} outside 0..{f.layout.chunkCount}"), f, s)) ∧
    ((∀ i ∈ indices, i < f.layout.chunkCount) → ∃ job tried left e f₁ s₁ f' s',
      -- The course of the transfer, and the saving at its end.
      f.transfer cancelAt indices s = (.ok job, f', s') ∧
      tried ++ left = Job.pending f.layout s.ledger indices ∧ Course tried f s e f₁ s₁ ∧
      (f', s') = (f₁.flush s₁).2 ∧
      -- With no failure the chunks are left that were in the queue at the cancellation.
      (e = none → left = Job.leftAt cancelAt (Job.pending f.layout s.ledger indices)) ∧
      job.result = some (match e.or (failure? (f₁.flush s₁).1) with
        | some e => .failed e
        | none => if left = [] then .success else .cancelled) ∧
      -- What was asked for, and which chunks have changed.
      (∃ rs, s'.source.requests = s.source.requests ++ rs ∧
        (∀ r ∈ rs, ∃ i ∈ tried, f.layout.chunkRange? i = some r) ∧
        rs.Pairwise fun r r' => r.start ≤ r'.start) ∧
      (∀ i ∉ tried, s'.ledger.state i = s.ledger.state i) ∧
      (job.result = some .success → ∀ i ∈ indices, s'.ledger.state i = .verified) ∧
      (∀ before f₂ s₂, before <+: tried → Course before f s none f₂ s₂ →
        ∀ i, s₂.ledger.state i = .verified → s'.ledger.state i = .verified)) := by
  refine ⟨fun indices' h => ?_, fun bad hmem hout hleast => ?_, fun hin => ?_⟩
  · unfold transfer
    rw [Job.create_congr f.layout s.ledger h]
  · unfold transfer
    rw [Job.create_of_outside s.ledger hmem hout hleast]
  · obtain ⟨job, tried, left, e, f₁, s₁, hsplit, hleft, hcourse, hend, hresult⟩ :=
      transfer_course (s := s) cancelAt hin
    have hsorted : (tried ++ left).Pairwise (· < ·) := by
      rw [hsplit]
      exact Job.pending_sorted _ _ _
    refine ⟨job, tried, left, e, f₁, s₁, _, _, hend, hsplit, hcourse, rfl, hleft, hresult, ?_,
      fun i hi => hcourse.state hi, fun hsuccess i hi => ?_, ?_⟩
    · obtain ⟨rs, hrs, hmem, hpairs⟩ := hcourse.requests
      exact ⟨rs, hrs, hmem, hpairs (List.pairwise_append.1 hsorted).1⟩
    · obtain ⟨rfl, rfl⟩ := Job.eq_nil_of_success (hresult.symm.trans hsuccess)
      rw [List.append_nil] at hsplit
      by_cases hv : s.ledger.state i = .verified
      · exact hcourse.keeps hv
      · refine hcourse.verified (.inl hs.tracks) i ?_
        rw [hsplit]
        exact Job.mem_pending_iff.2 ⟨hin i hi, hi, hv⟩
    · rintro before f₂ s₂ ⟨after, rfl⟩ hbefore i hi
      exact (hcourse.rest hbefore).keeps hi

/-- The empty copy of the letters, with a remote that keeps a log. -/
def loggedCopy : Site (Logged ScriptedSource) where
  ledger := (Session.emptyCopy "d").ledger
  disk := (Session.emptyCopy "d").disk
  source := ⟨(Session.emptyCopy "d").source, []⟩

/-- What fetches the letters. -/
def lettersFetcher : Fetcher := ⟨Session.lettersTree, Session.localCopy "d", {}, 0⟩

theorem transfer_outcome_letters :
    loggedCopy.ledger.Used ∧ ∃ job f' s',
      lettersFetcher.transfer none [0, 0] loggedCopy = (.ok job, f', s') ∧
      job.result = some .success ∧ s'.ledger.state 0 = .verified := by
  have hused : loggedCopy.ledger.Used := ⟨Ledger.empty 1, [], some "s", .inl ⟨1, rfl⟩, rfl⟩
  have hsuccess : ∀ job f' s', lettersFetcher.transfer none [0, 0] loggedCopy = (.ok job, f', s') →
      job.result = some .success := by
    intro job f' s' h
    have hresult : ((lettersFetcher.transfer none [0, 0] loggedCopy).1.toOption.bind
        fun job => job.result) = some .success := by decide +kernel
    rw [h] at hresult
    exact hresult
  obtain ⟨-, -, hinside⟩ := transfer_outcome (f := lettersFetcher) hused none [0, 0]
  have hin : ∀ i ∈ [0, 0], i < lettersFetcher.layout.chunkCount := by decide
  obtain ⟨job, tried, left, e, f₁, s₁, f', s', hend, -, -, -, -, -, -, -, hverified, -⟩ :=
    hinside hin
  have hresult := hsuccess job f' s' hend
  exact ⟨hused, job, f', s', hend, hresult, hverified hresult 0 List.mem_cons_self⟩

end Fetcher
end VerifiedCopy
