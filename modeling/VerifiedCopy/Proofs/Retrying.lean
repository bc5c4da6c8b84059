/-
# The attempts to fetch one chunk

A source that is asked for one range again and again gives a sequence of answers
(`reply`); nothing else has a say in it, since the disk stays as it is until an answer is
good. An answer is final if another attempt is not worth it: it has the bytes of the chunk, or
it is a failure that does not pass. The fetch of a chunk goes by the first final answer, or by
the last one that the settings allow (`attempts_eq`), and by no other: the failures before it
leave no trace but a bad verdict on a chunk that is in flight.

What the answer that ends the fetch leads to is `Concluded`, one case for each kind of answer.

Key definitions: `reply`, `Fetcher.Final`, `Fetcher.conclude`, `Fetcher.Concluded`.
Key theorems: `attempts_eq`, `fulfil_conclude`, `retry_law`.
-/
import Mathlib.Logic.Function.Iterate
import VerifiedCopy.Proofs.Saving.Outcomes
import VerifiedCopy.Proofs.Transfers

namespace VerifiedCopy

/-! ### A source that is asked again and again -/

section Replies

variable {σ : Type} [RangeSource σ]

/-- The source after `n` requests for a range, with nothing else going on. -/
def asked (d : Disk) (r : ByteRange) (limit : Duration) : Nat → σ → σ
  | 0, x => x
  | n + 1, x => asked d r limit n (RangeSource.fetch x d r limit).2

/-- The answer to the request that follows `n` requests for the same range. -/
def reply (x : σ) (d : Disk) (r : ByteRange) (limit : Duration) (n : Nat) :
    Except FetchError Bytes :=
  (RangeSource.fetch (asked d r limit n x) d r limit).1

theorem asked_requests (d : Disk) (r : ByteRange) (limit : Duration) (n : Nat) (x : Logged σ) :
    (asked d r limit n x).requests = x.requests ++ List.replicate n r := by
  induction n generalizing x with
  | zero => exact (List.append_nil _).symm
  | succ n ih =>
    unfold asked
    rw [ih, List.replicate_succ, ← List.singleton_append, ← List.append_assoc]
    rfl

end Replies

/-- A write fails with a failure of a file operation. -/
theorem LocalFile.writeDurable_error {f : LocalFile} {offset : Nat} {b : Bytes} {d : Disk}
    {e : Error} (h : (f.writeDurable offset b d).1 = .error e) :
    ∃ context message, e = .io context message := by
  unfold writeDurable at h
  split at h
  · cases h
    exact ⟨_, _, rfl⟩
  · exact Disk.eq_io_of_mapError h

namespace Ledger

variable {g : Ledger} {i : Nat}

/-- Bad verdicts do not end the fetch of a chunk. -/
theorem state_recordInvalid_iterate (n : Nat) (h : g.state i = .fetching) :
    ((Ticket.recordInvalid ⟨i⟩)^[n] g).state i = .fetching := by
  induction n generalizing g with
  | zero => exact h
  | succ n ih => exact ih ((state_recordInvalid h i).trans h)

end Ledger

namespace Fetcher

variable {σ : Type} {f : Fetcher} {i : Nat} {r : ByteRange}

/-! ### The answers that end a fetch -/

/-- The bytes have the length of the range and the digest of the chunk. -/
def Right (f : Fetcher) (i : Nat) (r : ByteRange) (b : Bytes) : Prop :=
  b.length = r.size ∧ f.tree.verifyLeaf i b = true

/-- An answer after which no other is asked for: the right bytes, or a failure that does not
pass. -/
def Final (f : Fetcher) (i : Nat) (r : ByteRange) : Except FetchError Bytes → Prop
  | .ok b => f.Right i r b
  | .error e => e.isTransient = false

theorem judge_eq_of_right {b : Bytes} (h : f.Right i r b) : f.judge i r (.ok b) = .good b := by
  simp only [judge]
  rw [if_neg (not_not.2 h.1), if_pos h.2]

theorem judge_eq_of_wrong {b : Bytes} (hlen : b.length = r.size)
    (hb : f.tree.verifyLeaf i b = false) : f.judge i r (.ok b) = .corrupt := by
  simp only [judge]
  rw [if_neg (not_not.2 hlen), if_neg (Bool.eq_false_iff.1 hb)]

theorem judge_eq_of_length {b : Bytes} (hlen : b.length ≠ r.size) :
    f.judge i r (.ok b) = .failed (.shortRead r.size b.length) :=
  if_pos hlen

/-- What is not final is worth another attempt. -/
theorem isRetryable_judge_iff {a : Except FetchError Bytes} :
    (f.judge i r a).isRetryable = true ↔ ¬ f.Final i r a := by
  rcases a with e | b
  · exact (Bool.not_eq_false _).symm.to_iff
  · by_cases hlen : b.length = r.size
    · cases hb : f.tree.verifyLeaf i b with
      | true =>
        rw [judge_eq_of_right ⟨hlen, hb⟩]
        exact iff_of_false (fun h => by cases h) (not_not.2 ⟨hlen, hb⟩)
      | false =>
        rw [judge_eq_of_wrong hlen hb]
        exact iff_of_true rfl fun h => by cases hb.symm.trans h.2
    · rw [judge_eq_of_length hlen]
      exact iff_of_true rfl fun h => hlen h.1

/-- The end of the attempts to fetch a chunk, with the answer to attempt number `attempt`. -/
def conclude (f : Fetcher) (t : Ticket) (r : ByteRange) (attempt : Nat) (s : Site σ) :
    Judgement → Except Error Nat × Site σ
  | .good b => f.deliver t.index r b s
  | j => (.error (j.toError t.index attempt), { s with ledger := t.recordInvalid s.ledger })

theorem conclude_of_bad (t : Ticket) (attempt : Nat) (s : Site σ) {j : Judgement}
    (h : ∀ b, j ≠ .good b) : f.conclude t r attempt s j =
      (.error (j.toError t.index attempt), { s with ledger := t.recordInvalid s.ledger }) := by
  cases j with
  | good b => exact absurd rfl (h b)
  | corrupt => rfl
  | failed e => rfl

variable [RangeSource σ]

/-- The fetch ends with the answer to its first attempt, if that is final or there is no other. -/
theorem attempts_last (t : Ticket) {left : Nat} (attempt : Nat) (s : Site σ)
    (h : f.Final t.index r (reply s.source s.disk r f.config.fetchTimeout 0) ∨ left = 0) :
    f.attempts t r left attempt s = f.conclude t r attempt
      { s with source := asked s.disk r f.config.fetchTimeout 1 s.source }
      (f.judge t.index r (reply s.source s.disk r f.config.fetchTimeout 0)) := by
  unfold attempts
  dsimp only
  show (match f.judge t.index r (reply s.source s.disk r f.config.fetchTimeout 0) with
    | .good b => _
    | j => _) = _
  cases hj : f.judge t.index r (reply s.source s.disk r f.config.fetchTimeout 0) with
  | good b => rfl
  | corrupt =>
    cases left with
    | zero => rfl
    | succ left =>
      have hfinal := h.resolve_right (Nat.succ_ne_zero left)
      exact absurd hfinal (isRetryable_judge_iff.1 (by rw [hj]; rfl))
  | failed e =>
    cases left with
    | zero => rfl
    | succ left =>
      have hfinal := h.resolve_right (Nat.succ_ne_zero left)
      refine if_neg fun he => isRetryable_judge_iff.1 ?_ hfinal
      rw [hj]
      exact he

/-- A bad verdict is written down and the next attempt follows, if the answer is not final. -/
theorem attempts_again (t : Ticket) (left attempt : Nat) (s : Site σ)
    (h : ¬ f.Final t.index r (reply s.source s.disk r f.config.fetchTimeout 0)) :
    f.attempts t r (left + 1) attempt s = f.attempts t r left (attempt + 1)
      { s with
        source := asked s.disk r f.config.fetchTimeout 1 s.source
        ledger := t.recordInvalid s.ledger } := by
  have hgo := isRetryable_judge_iff.2 h
  rw [attempts]
  dsimp only
  show (match f.judge t.index r (reply s.source s.disk r f.config.fetchTimeout 0) with
    | .good b => _
    | j => _) = _
  cases hj : f.judge t.index r (reply s.source s.disk r f.config.fetchTimeout 0) with
  | good b =>
    rw [hj] at hgo
    cases hgo
  | corrupt => rfl
  | failed e =>
    rw [hj] at hgo
    exact if_pos hgo

/-- **The answers that count.** The attempts to fetch a chunk come to the end that the first final
answer leads to, or the last answer that is allowed. -/
theorem attempts_eq (t : Ticket) (left attempt : Nat) (s : Site σ) :
    ∃ n ≤ left,
      (∀ m < n, ¬ f.Final t.index r (reply s.source s.disk r f.config.fetchTimeout m)) ∧
      (f.Final t.index r (reply s.source s.disk r f.config.fetchTimeout n) ∨ n = left) ∧
      f.attempts t r left attempt s = f.conclude t r (attempt + n)
        { s with
          source := asked s.disk r f.config.fetchTimeout (n + 1) s.source
          ledger := t.recordInvalid^[n] s.ledger }
        (f.judge t.index r (reply s.source s.disk r f.config.fetchTimeout n)) := by
  induction left generalizing attempt s with
  | zero =>
    refine ⟨0, Nat.le_refl 0, fun m hm => absurd hm (Nat.not_lt_zero m), .inr rfl, ?_⟩
    exact attempts_last t attempt s (.inr rfl)
  | succ left ih =>
    by_cases h : f.Final t.index r (reply s.source s.disk r f.config.fetchTimeout 0)
    · refine ⟨0, Nat.zero_le _, fun m hm => absurd hm (Nat.not_lt_zero m), .inl h, ?_⟩
      exact attempts_last t attempt s (.inl h)
    · obtain ⟨n, hn, hbefore, hend, heq⟩ := ih (attempt + 1)
        { s with
          source := asked s.disk r f.config.fetchTimeout 1 s.source
          ledger := t.recordInvalid s.ledger }
      refine ⟨n + 1, Nat.succ_le_succ hn, fun m hm => ?_, ?_, ?_⟩
      · cases m with
        | zero => exact h
        | succ m => exact hbefore m (Nat.lt_of_succ_lt_succ hm)
      · exact hend.imp id (congrArg _)
      · rw [attempts_again t left attempt s h, ← Nat.add_assoc, Nat.add_right_comm]
        exact heq

/-! ### The fetch of one chunk -/

/-- What the attempts to fetch chunk `i` with the range `r` lead to, by the answer `a` to the last
of them, attempt number `k`. The disk `d` is that of before. -/
inductive Concluded (f : Fetcher) (i : Nat) (r : ByteRange) (k : Nat) (d : Disk) :
    Except FetchError Bytes → Except Error ChunkOutcome → Site σ → Prop
  /-- The right bytes were written. -/
  | stored {b : Bytes} {s : Site σ} (hb : f.Right i r b)
      (hw : (f.localFile.writeDurable r.start b d).1 = .ok ())
      (hs : s.ledger.state i = .verified)
      (hslice : (f.localFile.content s.disk).slice r.start r.size = b) :
      Concluded f i r k d (.ok b) (.ok (.fetched r.size)) s
  /-- The right bytes could not be written. -/
  | unwritten {b : Bytes} {context message : String} {s : Site σ} (hb : f.Right i r b)
      (hw : (f.localFile.writeDurable r.start b d).1 = .error (.io context message))
      (hs : s.ledger.state i = .invalid) :
      Concluded f i r k d (.ok b) (.error (.localIo i context message)) s
  /-- As many bytes, but not the right ones. -/
  | corrupt {b : Bytes} {s : Site σ} (hlen : b.length = r.size)
      (hb : f.tree.verifyLeaf i b = false) (hs : s.ledger.state i = .invalid) (hd : s.disk = d) :
      Concluded f i r k d (.ok b) (.error (.chunkCorrupt i k)) s
  /-- Too many bytes or too few. -/
  | misfit {b : Bytes} {s : Site σ} (hlen : b.length ≠ r.size)
      (hs : s.ledger.state i = .invalid) (hd : s.disk = d) :
      Concluded f i r k d (.ok b) (.error (.fetch i k (.shortRead r.size b.length))) s
  /-- A refusal. -/
  | refused {e : FetchError} {s : Site σ} (hs : s.ledger.state i = .invalid) (hd : s.disk = d) :
      Concluded f i r k d (.error e) (.error (.fetch i k e)) s

section Fulfil

variable {s s' : Site σ}

theorem fulfil_of_ok {n : Nat} (h : f.fetchVerified ⟨i⟩ s = (.ok n, s'))
    (hs : s'.ledger.state i = .fetching) :
    f.fulfil ⟨i⟩ s = (.ok (.fetched n),
      { s' with ledger := (s'.ledger.settle i (.ok ())).2 }) := by
  have hok := Ledger.settle_of_fetching hs (.ok ())
  unfold fulfil
  rw [h]
  dsimp only [Ticket.verified]
  rw [hok]
  rfl

theorem fulfil_of_error {e : Error} (h : f.fetchVerified ⟨i⟩ s = (.error e, s'))
    (hs : s'.ledger.state i = .fetching) :
    f.fulfil ⟨i⟩ s = (.error e,
      { s' with ledger := (s'.ledger.settle i (.error e)).2 }) := by
  have hok := Ledger.settle_of_fetching hs (.error e)
  unfold fulfil
  rw [h]
  dsimp only [Ticket.failed]
  rw [hok]
  rfl

/-- A fetch that ends without the right bytes leaves the chunk invalid and the disk alone. -/
theorem fulfil_of_bad {k : Nat} {j : Judgement} (hj : ∀ b, j ≠ .good b)
    (h : f.fetchVerified ⟨i⟩ s = f.conclude ⟨i⟩ r k s' j) (hs : s'.ledger.state i = .fetching) :
    (f.fulfil ⟨i⟩ s).1 = .error (j.toError i k) ∧
      (f.fulfil ⟨i⟩ s).2.ledger.state i = .invalid ∧ (f.fulfil ⟨i⟩ s).2.disk = s'.disk := by
  have hblame := (Ledger.state_recordInvalid hs i).trans hs
  rw [conclude_of_bad _ _ _ hj] at h
  rw [fulfil_of_error h hblame]
  exact ⟨rfl, (Ledger.state_settle hblame _ i).trans (if_pos rfl), rfl⟩

/-- The right bytes are written and found again in the range of the chunk, or they cannot be
written. -/
theorem fulfil_of_right {k : Nat} {b : Bytes} (hb : f.Right i r b)
    (h : f.fetchVerified ⟨i⟩ s = f.conclude ⟨i⟩ r k s' (.good b))
    (hs : s'.ledger.state i = .fetching) (hknown : s'.disk.Knows f.localFile.handle)
    (hr : f.layout.chunkRange? i = some r) :
    Concluded f i r k s'.disk (.ok b) (f.fulfil ⟨i⟩ s).1 (f.fulfil ⟨i⟩ s).2 := by
  rcases hw : f.localFile.writeDurable r.start b s'.disk with ⟨e | u, d⟩
  · obtain ⟨context, message, rfl⟩ := LocalFile.writeDurable_error (by rw [hw])
    have heq : f.conclude ⟨i⟩ r k s' (.good b) =
        (.error (.localIo i context message), { s' with disk := d }) := by
      simp only [conclude, deliver, hw]
      rfl
    rw [fulfil_of_error (h.trans heq) hs]
    exact .unwritten hb (by rw [hw]) ((Ledger.state_settle hs _ i).trans (if_pos rfl))
  · have hok : (f.localFile.writeDurable r.start b s'.disk).1 = .ok () := by rw [hw]
    have hcontent := LocalFile.content_writeDurable_of_ok hknown
      (Layout.ne_nil_of_range hr hb.1) hok
    have heq : f.conclude ⟨i⟩ r k s' (.good b) = (.ok r.size, { s' with disk := d }) := by
      simp only [conclude, deliver, hw]
    rw [hw] at hcontent
    rw [fulfil_of_ok (h.trans heq) hs]
    refine .stored hb hok ((Ledger.state_settle hs _ i).trans (if_pos rfl)) ?_
    show (f.localFile.content d).slice r.start r.size = b
    rw [hcontent, ← hb.1, Bytes.slice_overlay]

/-- The end of a fetch is settled by the answer that ends it. -/
theorem fulfil_conclude {k : Nat} (a : Except FetchError Bytes)
    (h : f.fetchVerified ⟨i⟩ s = f.conclude ⟨i⟩ r k s' (f.judge i r a))
    (hs : s'.ledger.state i = .fetching) (hknown : s'.disk.Knows f.localFile.handle)
    (hr : f.layout.chunkRange? i = some r) :
    Concluded f i r k s'.disk a (f.fulfil ⟨i⟩ s).1 (f.fulfil ⟨i⟩ s).2 := by
  rcases a with e | b
  · obtain ⟨hres, hstate, hdisk⟩ := fulfil_of_bad (fun b hb => by cases hb) h hs
    rw [hres]
    exact .refused hstate hdisk
  · by_cases hlen : b.length = r.size
    · cases hb : f.tree.verifyLeaf i b with
      | true =>
        rw [judge_eq_of_right ⟨hlen, hb⟩] at h
        exact fulfil_of_right ⟨hlen, hb⟩ h hs hknown hr
      | false =>
        rw [judge_eq_of_wrong hlen hb] at h
        obtain ⟨hres, hstate, hdisk⟩ := fulfil_of_bad (fun b hb => by cases hb) h hs
        rw [hres]
        exact .corrupt hlen hb hstate hdisk
    · rw [judge_eq_of_length hlen] at h
      obtain ⟨hres, hstate, hdisk⟩ := fulfil_of_bad (fun b hb => by cases hb) h hs
      rw [hres]
      exact .misfit hlen hstate hdisk

end Fulfil

omit [RangeSource σ] in
/-- Nothing that ends a fetch asks the source again. -/
theorem conclude_source (t : Ticket) (k : Nat) (s : Site σ) (j : Judgement) :
    (f.conclude t r k s j).2.source = s.source := by
  cases j with
  | good b =>
    simp only [conclude, deliver]
    split <;> rfl
  | corrupt => rfl
  | failed e => rfl

theorem fetchVerified_of_range (s : Site σ) (hr : f.layout.chunkRange? i = some r) :
    f.fetchVerified ⟨i⟩ s = f.attempts ⟨i⟩ r f.config.maxRetries.toNat 1 s := by
  unfold fetchVerified
  rw [hr]

theorem fulfil_source (t : Ticket) (s : Site σ) :
    (f.fulfil t s).2.source = (f.fetchVerified t s).2.source := by
  unfold fulfil
  split
  · rename_i h
    rw [h]
  · rename_i h
    rw [h]

/-- Who makes sure of a chunk that is free and not verified fetches it. -/
theorem ensure_of_free {s : Site σ} (hi : i < s.ledger.chunkCount)
    (hfree : s.ledger.state i ≠ .fetching) (hv : s.ledger.state i ≠ .verified) :
    f.ensure i s = f.fulfil ⟨i⟩ { s with ledger := s.ledger.depart i } := by
  obtain ⟨t, ht⟩ := Ledger.claim_owner_iff.2 ⟨hi, hfree, hv⟩
  have heq : s.ledger.claim i = (.ok (.owner t), (s.ledger.claim i).2) := by rw [← ht]
  obtain ⟨rfl, -, -, -, hdepart⟩ := Ledger.claim_eq_owner heq
  unfold ensure
  rw [heq, hdepart]
  rfl

/-- **The law of retries.** For a chunk that is neither verified nor in flight, and whatever the
source answers: let `n` be the number of the first answer that is final, or the number of retries
that the settings allow, if none is final up to there. Then the source is asked `n + 1` times, each
time for the range of the chunk, a number that a 32-bit counter holds; and the call, the state of
the chunk and the local file are as the answer number `n` has it, with `n + 1` attempts named in
the error, if there is one. -/
theorem retry_law (f : Fetcher) (i : Nat) {r : ByteRange} (s : Site (Logged σ))
    (hmax : f.config.maxRetries.toNat < UInt32.size - 1)
    (hcount : s.ledger.chunkCount = f.tree.leafCount)
    (hknown : s.disk.Knows f.localFile.handle) (hr : f.layout.chunkRange? i = some r)
    (hfree : s.ledger.state i ≠ .fetching) (hv : s.ledger.state i ≠ .verified) :
    ∃ n ≤ f.config.maxRetries.toNat,
      n + 1 < UInt32.size ∧
      (∀ m < n, ¬ f.Final i r (reply s.source s.disk r f.config.fetchTimeout m)) ∧
      (f.Final i r (reply s.source s.disk r f.config.fetchTimeout n) ∨
        n = f.config.maxRetries.toNat) ∧
      (f.ensure i s).2.source.requests = s.source.requests ++ List.replicate (n + 1) r ∧
      Concluded f i r (n + 1) s.disk (reply s.source s.disk r f.config.fetchTimeout n)
        (f.ensure i s).1 (f.ensure i s).2 := by
  have hi : i < s.ledger.chunkCount := by
    rw [hcount]
    exact (Layout.chunkRange?_eq_some_iff.1 hr).1
  have hfetching : (s.ledger.depart i).state i = .fetching :=
    (Ledger.state_depart hi i).trans (if_pos rfl)
  obtain ⟨n, hn, hbefore, hend, heq⟩ := attempts_eq (f := f) (r := r) ⟨i⟩
    f.config.maxRetries.toNat 1 { s with ledger := s.ledger.depart i }
  have hfetch := (fetchVerified_of_range _ hr).trans heq
  rw [Nat.add_comm] at hfetch
  refine ⟨n, hn, by omega, hbefore, hend, ?_, ?_⟩
  · rw [ensure_of_free hi hfree hv, fulfil_source, hfetch, conclude_source]
    exact asked_requests _ _ _ _ _
  · rw [ensure_of_free hi hfree hv]
    have hconcluded := fulfil_conclude _ hfetch (Ledger.state_recordInvalid_iterate n hfetching)
      hknown hr
    exact hconcluded

/-- The letters with two mishaps before them: other bytes, and then a refusal that passes. -/
def stubborn : Site (Logged ScriptedSource) :=
  { loggedCopy with source.inner.once := [(0, .corrupt), (0, .refuse (.status 503))] }

theorem retry_law_stubborn :
    lettersFetcher.layout.chunkRange? 0 = some Session.allLetters ∧
      stubborn.ledger.state 0 = .absent ∧ ∃ n,
        (lettersFetcher.ensure 0 stubborn).2.source.requests =
          List.replicate (n + 1) Session.allLetters ∧ n = 2 ∧
        (lettersFetcher.ensure 0 stubborn).1 = .ok (.fetched 8) := by
  have hr : lettersFetcher.layout.chunkRange? 0 = some Session.allLetters := by decide +kernel
  have hs : stubborn.ledger.state 0 = .absent := by decide +kernel
  obtain ⟨n, -, -, -, -, hrequests, -⟩ := retry_law lettersFetcher 0 stubborn (by decide) rfl
    (Session.emptyCopy_knows "d") hr (by rw [hs]; decide) (by rw [hs]; decide)
  have hlength : (lettersFetcher.ensure 0 stubborn).2.source.requests.length = 3 := by
    decide +kernel
  have hres : (lettersFetcher.ensure 0 stubborn).1.toOption = some (.fetched 8) := by
    decide +kernel
  refine ⟨hr, hs, n, hrequests, ?_, eq_ok_of_toOption hres⟩
  rw [hrequests, List.length_append, List.length_replicate] at hlength
  have hnone : stubborn.source.requests.length = 0 := rfl
  omega

end Fetcher
end VerifiedCopy
