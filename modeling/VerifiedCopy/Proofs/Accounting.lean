/-
# The progress of a transfer accounts for its chunks

A job counts bytes on four ways: for chunks that are verified when it starts, for those that it
fetches, for those that turn out to be verified and for those that somebody else brings in. Over
all of them one thing is kept (`Job.Counted`): the bytes counted are those of the wanted chunks
that the ledger calls verified at that moment. A chunk is in the queue at most once and is not
verified there, so carrying it out counts its bytes exactly if that verifies it
(`carryOut_bytes`, `Counted.carryOut`); and since no file is as long as `2 ^ 64`, the counters do
not wrap (`Layout.bytesOf_lt`).

Key definitions: `Layout.bytesOf`, `Ledger.verifiedOf`, `Job.Counted`.
Key theorems: `carryOut_bytes`, `Counted.advance`, `progress_accounting`.
-/
import Mathlib.Algebra.Order.BigOperators.Group.Finset
import VerifiedCopy.Proofs.Layout.Tiling
import VerifiedCopy.Proofs.Saving.Outcomes
import VerifiedCopy.Proofs.Transfers

namespace VerifiedCopy

/-- Words are added as numbers, as long as the sum fits. -/
theorem toNat_add_ofNat {x : UInt64} {n : Nat} (h : x.toNat + n < UInt64.size) :
    (x + UInt64.ofNat n).toNat = x.toNat + n := by
  have hn : n < UInt64.size := by omega
  rw [UInt64.toNat_add, UInt64.toNat_ofNat_of_lt' hn]
  exact Nat.mod_eq_of_lt h

/-! ### Bytes of sets of chunks -/

namespace Layout

variable {l : Layout} {i : Nat} {W V : Finset Nat}

/-- The number of bytes in a set of chunks. -/
def bytesOf (l : Layout) (W : Finset Nat) : Nat := ∑ i ∈ W, l.chunkLen i

theorem bytesIn_eq_bytesOf : ∀ {is : List Nat}, is.Nodup → l.bytesIn is = l.bytesOf is.toFinset
  | [], _ => rfl
  | i :: rest, h => by
    obtain ⟨hi, hrest⟩ := List.nodup_cons.1 h
    unfold bytesOf
    rw [List.toFinset_cons, Finset.sum_insert (by rwa [List.mem_toFinset])]
    exact congrArg _ (bytesIn_eq_bytesOf hrest)

theorem bytesOf_mono (h : V ⊆ W) : l.bytesOf V ≤ l.bytesOf W :=
  Finset.sum_le_sum_of_subset h

/-- Leaving a chunk out leaves out some bytes. -/
theorem bytesOf_lt_of_notMem (h : V ⊆ W) (hi : i ∈ W) (hout : i ∉ V) (hlt : i < l.chunkCount) :
    l.bytesOf V < l.bytesOf W :=
  Finset.sum_lt_sum_of_subset h hi hout (chunkLen_pos hlt) fun _ _ _ => Nat.zero_le _

/-- The bytes of any chunks are counted in 64 bits. -/
theorem bytesOf_lt (h : ∀ i ∈ W, i < l.chunkCount) : l.bytesOf W < UInt64.size := by
  have hall : l.bytesOf (List.range l.chunkCount).toFinset = l.totalSize := by
    rw [← bytesIn_eq_bytesOf List.nodup_range, bytesIn_range]
  calc l.bytesOf W ≤ l.bytesOf (List.range l.chunkCount).toFinset :=
        bytesOf_mono fun i hi => List.mem_toFinset.2 (List.mem_range.2 (h i hi))
    _ = l.totalSize := hall
    _ < UInt64.size := l.totalSize_lt

end Layout

namespace Ledger

variable {g g' : Ledger} {i : Nat} {W : Finset Nat}

/-- The chunks of a set that are verified. -/
def verifiedOf (g : Ledger) (W : Finset Nat) : Finset Nat := W.filter fun i => g.state i = .verified

theorem mem_verifiedOf : i ∈ g.verifiedOf W ↔ i ∈ W ∧ g.state i = .verified :=
  Finset.mem_filter

theorem verifiedOf_subset : g.verifiedOf W ⊆ W :=
  Finset.filter_subset _ _

theorem verifiedOf_mono (h : ∀ i, g.state i = .verified → g'.state i = .verified) :
    g.verifiedOf W ⊆ g'.verifiedOf W :=
  Finset.monotone_filter_right W fun i _ hi => h i hi

theorem verifiedOf_eq_self (h : ∀ i ∈ W, g.state i = .verified) : g.verifiedOf W = W :=
  Finset.filter_true_of_mem h

/-- A chunk that was worked on adds its bytes if it is verified now and was not before. -/
theorem OnlyAt.bytesOf_of_verified (l : Layout) (h : g.OnlyAt i g') (hi : i ∈ W)
    (hv : g.state i ≠ .verified) (hv' : g'.state i = .verified) :
    l.bytesOf (g'.verifiedOf W) = l.bytesOf (g.verifiedOf W) + l.chunkLen i := by
  have hout : i ∉ g.verifiedOf W := fun hmem => hv (mem_verifiedOf.1 hmem).2
  have hset : g'.verifiedOf W = insert i (g.verifiedOf W) := by
    ext j
    rw [Finset.mem_insert]
    by_cases hj : j = i
    · rw [hj]
      exact iff_of_true (mem_verifiedOf.2 ⟨hi, hv'⟩) (.inl rfl)
    · rw [mem_verifiedOf, mem_verifiedOf, h.state j hj, or_iff_right hj]
  rw [hset, Nat.add_comm]
  exact Finset.sum_insert hout

theorem OnlyAt.verifiedOf_eq (h : g.OnlyAt i g') (hv : g.state i ≠ .verified)
    (hv' : g'.state i ≠ .verified) : g'.verifiedOf W = g.verifiedOf W := by
  ext j
  rw [mem_verifiedOf, mem_verifiedOf]
  by_cases hj : j = i
  · rw [hj]
    exact iff_of_false (fun h => hv' h.2) fun h => hv h.2
  · rw [h.state j hj]

end Ledger

/-! ### Failures that name a chunk -/

/-- Saving the ledger never fails with an error that names a chunk. -/
theorem Site.chunk?_of_persist {σ : Type} {s : Site σ} {e : Error}
    (h : failure? s.persist.1 = some e) : e.chunk? = none := by
  have hpersist : (s.ledger.persist s.disk).1 = .error e := by
    cases hr : (s.ledger.persist s.disk).1 with
    | error e' =>
      have hsome : failure? (s.ledger.persist s.disk).1 = some e := h
      rw [hr] at hsome
      exact congrArg Except.error (Option.some.inj hsome)
    | ok u =>
      have hsome : failure? (s.ledger.persist s.disk).1 = some e := h
      rw [hr] at hsome
      cases hsome
  unfold Ledger.persist at hpersist
  split at hpersist
  · cases hpersist
  · obtain ⟨c, text, rfl⟩ := Disk.save_error hpersist
    rfl

namespace Fetcher

variable {σ : Type} {f : Fetcher} {i : Nat} {s : Site σ}

theorem chunk?_of_noteFetched {e : Error} (h : failure? (f.noteFetched s).1 = some e) :
    e.chunk? = none := by
  unfold noteFetched at h
  split at h
  · exact Site.chunk?_of_persist h
  · cases h

variable {r : ByteRange}

theorem deliver_len {b : Bytes} {n : Nat} (h : (f.deliver i r b s).1 = .ok n) : n = r.size := by
  unfold deliver at h
  split at h
  · cases h
  · cases h
    rfl

variable [RangeSource σ]

theorem attempts_len {t : Ticket} {left k n : Nat} (h : (f.attempts t r left k s).1 = .ok n) :
    n = r.size := by
  refine f.attempts_induction t r (motive := fun _ out => out.1 = .ok n → n = r.size)
    ?good ?bad ?again left k s h
  case good =>
    intro s b _ h
    exact deliver_len h
  case bad =>
    intro s e h
    cases h
  case again =>
    intro s out ih h
    exact ih h

theorem fetchVerified_len {n : Nat} (h : (f.fetchVerified ⟨i⟩ s).1 = .ok n) :
    n = f.layout.chunkLen i := by
  unfold fetchVerified at h
  split at h
  · cases h
  · rename_i r hr
    rw [Layout.chunkLen_of_chunkRange? hr]
    exact attempts_len h

/-- What is fetched is a whole chunk. -/
theorem ensure_len {n : Nat} (h : (f.ensure i s).1 = .ok (.fetched n)) :
    n = f.layout.chunkLen i := by
  unfold ensure at h
  rcases hc : s.ledger.claim i with ⟨e | c, g⟩
  · rw [hc] at h
    cases h
  · rw [hc] at h
    cases c with
    | verified => cases h
    | inFlight flight =>
      obtain ⟨u, -, hjoined⟩ := map_eq_ok_iff.1 h
      cases hjoined
    | owner t =>
      obtain ⟨rfl, -⟩ := Ledger.claim_eq_owner hc
      simp only [pursue, fulfil] at h
      rcases hv : f.fetchVerified ⟨i⟩ { s with ledger := g } with ⟨e | bytes, s'⟩
      · rw [hv] at h
        obtain ⟨u, -, herror⟩ := bind_eq_ok_iff.1 h
        cases herror
      · rw [hv] at h
        obtain ⟨u, -, hbytes⟩ := map_eq_ok_iff.1 h
        cases hbytes
        exact fetchVerified_len (by rw [hv])

/-- A trial that fails with an error that names a chunk leaves its chunk not verified. -/
theorem trial_failed (f : Fetcher) (i : Nat) (s : Site σ) (hwait : s.ledger.Awaitable) {e : Error}
    (h : (f.trial i s).1 = some e) (he : e.chunk? ≠ none) :
    (f.trial i s).2.2.ledger.state i ≠ .verified := by
  have hensured := f.ensure_cases i s
  unfold trial at h ⊢
  rcases hr : f.ensure i s with ⟨r, s'⟩
  rw [hr] at hensured h
  dsimp only at hensured h ⊢
  cases hensured with
  | outside hout =>
    rw [Ledger.state, if_neg (Nat.not_lt.2 hout)]
    decide
  | already hv => cases h
  | @joined o _ hf ht hs =>
    cases o with
    | ok u => cases h
    | error e' =>
      show s'.ledger.state i ≠ .verified
      rw [hs (hwait.resolve_right fun hidle => hidle i hf)]
      exact fun hv => by cases hv
  | fetched hf hv ht hs => exact absurd (chunk?_of_noteFetched h) he
  | failed hf hv ht hs =>
    rw [hs]
    decide

end Fetcher

/-! ### Jobs -/

namespace Job

variable {σ : Type}

/-- The bytes that a job has counted are those of the wanted chunks that are verified now, and
the chunks in its queue are not. -/
structure Counted (l : Layout) (W : Finset Nat) (j : Job) (s : Site σ) : Prop where
  inside : ∀ i ∈ W, i < l.chunkCount
  total : j.progress.bytesTotal.toNat = l.bytesOf W
  done : j.progress.bytesDone.toNat = l.bytesOf (s.ledger.verifiedOf W)
  nodup : j.queue.Nodup
  queue : ∀ i ∈ j.queue, i ∈ W ∧ s.ledger.state i ≠ .verified
  /-- Unless something has failed, the other chunks are verified. -/
  others : j.failure = none → ∀ i ∈ W, i ∉ j.queue → s.ledger.state i = .verified
  /-- A failure that names a chunk is one of a chunk that is not verified. -/
  failed : ∀ e, j.failure = some e → e.chunk? ≠ none →
    ∃ i ∈ W, i ∉ j.queue ∧ s.ledger.state i ≠ .verified
  awaitable : s.ledger.Awaitable

variable {l : Layout} {W : Finset Nat} {j : Job} {i : Nat} {f : Fetcher} {s : Site σ}

theorem Counted.le (h : Counted l W j s) : j.progress.bytesDone ≤ j.progress.bytesTotal := by
  rw [UInt64.le_iff_toNat_le, h.done, h.total]
  exact Layout.bytesOf_mono Ledger.verifiedOf_subset

/-- A wanted chunk that is not verified is missing from the count. -/
theorem Counted.lt (h : Counted l W j s) (hi : i ∈ W) (hv : s.ledger.state i ≠ .verified) :
    j.progress.bytesDone < j.progress.bytesTotal := by
  rw [UInt64.lt_iff_toNat_lt, h.done, h.total]
  exact Layout.bytesOf_lt_of_notMem Ledger.verifiedOf_subset hi
    (fun hmem => hv (Ledger.mem_verifiedOf.1 hmem).2) (h.inside i hi)

/-- If every wanted chunk is verified, all bytes are counted. -/
theorem Counted.eq (h : Counted l W j s) (hv : ∀ i ∈ W, s.ledger.state i = .verified) :
    j.progress.bytesDone = j.progress.bytesTotal := by
  rw [← UInt64.toNat_inj, h.done, h.total, Ledger.verifiedOf_eq_self hv]

theorem Counted.cancel (h : Counted l W j s) : Counted l W j.cancel s :=
  ⟨h.inside, h.total, h.done, h.nodup, h.queue, h.others, h.failed, h.awaitable⟩

variable [RangeSource σ]

/-- To carry a chunk out that is not verified is to count its bytes, if that verifies it. -/
theorem carryOut_bytes (j : Job) (i : Nat) (f : Fetcher) (s : Site σ)
    (hwait : s.ledger.Awaitable) (hv : s.ledger.state i ≠ .verified) :
    (j.carryOut i f s).1.progress.bytesTotal = j.progress.bytesTotal ∧
      (((j.carryOut i f s).2.2.ledger.state i = .verified ∧
        (j.carryOut i f s).1.progress.bytesDone =
          j.progress.bytesDone + UInt64.ofNat (f.layout.chunkLen i)) ∨
      ((j.carryOut i f s).2.2.ledger.state i ≠ .verified ∧
        (j.carryOut i f s).1.progress.bytesDone = j.progress.bytesDone)) := by
  have hensured := f.ensure_cases i s
  have hlen := fun n => f.ensure_len (i := i) (s := s) (n := n)
  unfold carryOut
  rcases hr : f.ensure i s with ⟨r, s'⟩
  rw [hr] at hensured hlen
  dsimp only at hensured hlen ⊢
  cases hensured with
  | outside hout => exact ⟨rfl, .inr ⟨hv, rfl⟩⟩
  | already hv' => exact absurd hv' hv
  | @joined o _ hf ht hs =>
    have hstate := hs (hwait.resolve_right fun hidle => hidle i hf)
    cases o with
    | ok u => exact ⟨rfl, .inl ⟨hstate, rfl⟩⟩
    | error e =>
      refine ⟨rfl, .inr ⟨fun hv' => ?_, rfl⟩⟩
      cases hstate.symm.trans hv'
  | @fetched n _ hf hv' ht hs =>
    obtain rfl := hlen n rfl
    obtain ⟨-, hledger, -⟩ := f.noteFetched_quiet s'
    simp only [record]
    rcases hn : f.noteFetched s' with ⟨e | u, f', s''⟩
    · rw [hn] at hledger
      exact ⟨rfl, .inl ⟨(congrArg (fun g => g.state i) hledger).trans hs, rfl⟩⟩
    · rw [hn] at hledger
      exact ⟨rfl, .inl ⟨(congrArg (fun g => g.state i) hledger).trans hs, rfl⟩⟩
  | failed hf hv' ht hs =>
    refine ⟨rfl, .inr ⟨fun hv' => ?_, rfl⟩⟩
    cases hs.symm.trans hv'

/-- **What one chunk leaves of the account.** The next chunk of the queue is carried out, and the
bytes counted are those of the verified chunks again. -/
theorem Counted.carryOut {rest : List Nat} (h : Counted f.layout W j s)
    (hq : j.queue = i :: rest) :
    Counted f.layout W ({ j with queue := rest }.carryOut i f s).1
      ({ j with queue := rest }.carryOut i f s).2.2 := by
  obtain ⟨hiW, hv⟩ := h.queue i (by rw [hq]; exact List.mem_cons_self)
  obtain ⟨hi, hrest⟩ := List.nodup_cons.1 (hq ▸ h.nodup)
  obtain ⟨hsite, hqueue, hfailure, -⟩ := carryOut_eq { j with queue := rest } i f s
  obtain ⟨htotal, hbytes⟩ := carryOut_bytes { j with queue := rest } i f s h.awaitable hv
  have htried := f.trial_spec i s
  have hfailed := fun e => f.trial_failed i s h.awaitable (e := e)
  rw [← hsite] at htried hfailed
  rcases hc : { j with queue := rest }.carryOut i f s with ⟨j', f', s'⟩
  rw [hc] at hqueue hfailure htotal hbytes htried hfailed ⊢
  dsimp only at hqueue hfailure htotal hbytes htried hfailed ⊢
  -- No chunk is in the queue twice, so the others in it were not worked on.
  have hothers : ∀ k ∈ rest, s'.ledger.state k = s.ledger.state k := fun k hk =>
    htried.ledger.state k fun e => hi (e ▸ hk)
  refine ⟨h.inside, htotal ▸ h.total, ?_, hqueue ▸ hrest, fun k hk => ?_, fun hnone k hk hout => ?_,
    fun e he hchunk => ?_, h.awaitable.onlyAt htried.ledger htried.landed⟩
  · rcases hbytes with ⟨hv', hbytes⟩ | ⟨hv', hbytes⟩
    · have hsum := htried.ledger.bytesOf_of_verified f.layout hiW hv hv'
      have hlt : f.layout.bytesOf (s'.ledger.verifiedOf W) < UInt64.size :=
        Layout.bytesOf_lt fun k hk => h.inside k (Ledger.verifiedOf_subset hk)
      rw [hbytes, toNat_add_ofNat (by rw [h.done, ← hsum]; exact hlt), h.done, hsum]
    · rw [hbytes, htried.ledger.verifiedOf_eq hv hv']
      exact h.done
  · rw [hqueue] at hk
    rw [hothers k hk]
    exact h.queue k (by rw [hq]; exact List.mem_cons_of_mem i hk)
  · rw [hfailure] at hnone
    obtain ⟨hnone, htrial⟩ := Option.or_eq_none_iff.1 hnone
    rw [hqueue] at hout
    by_cases hki : k = i
    · rw [hki]
      exact htried.verified h.awaitable htrial
    · refine htried.keeps (h.others hnone k hk ?_)
      rw [hq, List.mem_cons, not_or]
      exact ⟨hki, hout⟩
  · rw [hfailure] at he
    rw [hqueue]
    cases hj : j.failure with
    | none =>
      rw [hj, Option.none_or] at he
      exact ⟨i, hiW, hi, hfailed e he hchunk⟩
    | some e' =>
      -- The first failure stays, and its chunk is not taken again.
      rw [hj] at he
      cases he
      obtain ⟨k, hk, hout, hkv⟩ := h.failed e hj hchunk
      rw [hq, List.mem_cons, not_or] at hout
      refine ⟨k, hk, hout.2, ?_⟩
      rw [htried.ledger.state k hout.1]
      exact hkv

omit [RangeSource σ] in
theorem next_eq_some {j' : Job} (h : j.next = some (i, j')) :
    ∃ rest, j.queue = i :: rest ∧ j' = { j with queue := rest } := by
  unfold next at h
  split at h
  · cases h
  · split at h
    · cases h
    · rename_i hq
      cases h
      exact ⟨_, hq, rfl⟩

theorem advance_of_none (h : j.next = none) (n : Nat) (f : Fetcher) (s : Site σ) :
    j.advance n f s = (j, f, s) := by
  cases n with
  | zero => rfl
  | succ n => rw [Job.advance, h]

theorem advance_of_some {j' : Job} (h : j.next = some (i, j')) (n : Nat) (f : Fetcher)
    (s : Site σ) : j.advance (n + 1) f s = (j'.carryOut i f s).1.advance n
      (j'.carryOut i f s).2.1 (j'.carryOut i f s).2.2 := by
  rw [Job.advance, h]

/-- **What any number of chunks leave of it.** -/
theorem Counted.advance (n : Nat) (h : Counted f.layout W j s) :
    Counted f.layout W (j.advance n f s).1 (j.advance n f s).2.2 ∧
      (j.advance n f s).2.1.layout = f.layout ∧
      ∀ i, s.ledger.state i = .verified → (j.advance n f s).2.2.ledger.state i = .verified := by
  induction n generalizing j f s with
  | zero => exact ⟨h, rfl, fun _ hi => hi⟩
  | succ n ih =>
    cases hnext : j.next with
    | none =>
      rw [advance_of_none hnext]
      exact ⟨h, rfl, fun _ hi => hi⟩
    | some x =>
      obtain ⟨i, j'⟩ := x
      obtain ⟨rest, hq, rfl⟩ := next_eq_some hnext
      rw [advance_of_some hnext]
      have hfirst := h.carryOut hq
      have htried := f.trial_spec i s
      rw [← (carryOut_eq { j with queue := rest } i f s).1] at htried
      rw [← htried.layout] at hfirst ⊢
      obtain ⟨hcounted, hlayout, hkeeps⟩ := ih hfirst
      exact ⟨hcounted, hlayout, fun k hk => hkeeps k (htried.keeps hk)⟩

/-- To take some chunks and then some more is to take all of them. -/
theorem advance_add (n m : Nat) (j : Job) (f : Fetcher) (s : Site σ) :
    j.advance (n + m) f s = (j.advance n f s).1.advance m (j.advance n f s).2.1
      (j.advance n f s).2.2 := by
  induction n generalizing j f s with
  | zero =>
    rw [Nat.zero_add]
    rfl
  | succ n ih =>
    rw [Nat.succ_add]
    cases hnext : j.next with
    | none =>
      rw [advance_of_none hnext, advance_of_none hnext, advance_of_none hnext]
    | some x => rw [advance_of_some hnext, advance_of_some hnext, ih]

/-! ### The account of a transfer -/

omit [RangeSource σ] in
/-- The bytes of the chunks that are verified are counted at the start. -/
theorem startProgress_bytes (l : Layout) (g : Ledger) (is : List Nat) (p : Progress) :
    (is.foldl (fun p i => if g.state i = .verified then
        p.addChunk (UInt64.ofNat (l.chunkLen i)) else p) p).bytesTotal = p.bytesTotal ∧
      (is.foldl (fun p i => if g.state i = .verified then
        p.addChunk (UInt64.ofNat (l.chunkLen i)) else p) p).bytesDone = p.bytesDone +
          UInt64.ofNat (l.bytesIn (is.filter fun i => g.state i = .verified)) := by
  induction is generalizing p with
  | nil => exact ⟨rfl, (UInt64.add_zero _).symm⟩
  | cons i rest ih =>
    rw [List.foldl_cons]
    by_cases hv : g.state i = .verified
    · obtain ⟨htotal, hdone⟩ := ih (p.addChunk (UInt64.ofNat (l.chunkLen i)))
      rw [if_pos hv, List.filter_cons_of_pos (by simpa using hv)]
      refine ⟨htotal, hdone.trans ?_⟩
      rw [Layout.bytesIn, UInt64.ofNat_add, ← UInt64.add_assoc]
      rfl
    · rw [if_neg hv, List.filter_cons_of_neg (by simpa using hv)]
      exact ih p

omit [RangeSource σ] in
theorem create_progress {g : Ledger} {indices : List Nat} (h : create l g indices = .ok j) :
    j.progress = startProgress l g (wanted l indices) := by
  unfold create at h
  split at h
  · cases h
  · cases h
    rfl

theorem mem_wanted_iff {indices : List Nat} :
    i ∈ wanted l indices ↔ i < l.chunkCount ∧ i ∈ indices := by
  unfold wanted
  rw [List.mem_filter, List.mem_range, List.contains_iff_mem]

theorem nodup_wanted (l : Layout) (indices : List Nat) : (wanted l indices).Nodup :=
  List.nodup_range.filter _

omit [RangeSource σ] in
/-- A new job has counted the chunks that are verified. -/
theorem counted_create {indices : List Nat} (hwait : s.ledger.Awaitable)
    (hin : ∀ i ∈ indices, i < l.chunkCount) (h : create l s.ledger indices = .ok j) :
    Counted l indices.toFinset j s := by
  obtain ⟨j', hj', hqueue, -, hfail⟩ := create_of_inside s.ledger hin
  rw [h] at hj'
  cases hj'
  have hinside : ∀ i ∈ indices.toFinset, i < l.chunkCount := fun i hi =>
    hin i (List.mem_toFinset.1 hi)
  have hwanted : (wanted l indices).toFinset = indices.toFinset := by
    ext i
    rw [List.mem_toFinset, List.mem_toFinset, mem_wanted_iff]
    exact and_iff_right_of_imp (hin i)
  have hverified : ((wanted l indices).filter fun i => s.ledger.state i = .verified).toFinset =
      s.ledger.verifiedOf indices.toFinset := by
    rw [List.toFinset_filter, hwanted]
    unfold Ledger.verifiedOf
    simp only [decide_eq_true_eq]
  obtain ⟨htotal, hdone⟩ := startProgress_bytes l s.ledger (wanted l indices)
    { bytesTotal := UInt64.ofNat (l.bytesIn (wanted l indices)),
      chunksTotal := UInt64.ofNat (wanted l indices).length }
  have hlt := Layout.bytesOf_lt hinside
  refine ⟨hinside, ?_, ?_, ?_, fun i hi => ?_, fun _ i hi hout => ?_, fun e he => ?_, hwait⟩
  · rw [create_progress h, startProgress, htotal,
      Layout.bytesIn_eq_bytesOf (nodup_wanted l indices), hwanted]
    exact UInt64.toNat_ofNat_of_lt' hlt
  · have hle : l.bytesOf (s.ledger.verifiedOf indices.toFinset) ≤ l.bytesOf indices.toFinset :=
      Layout.bytesOf_mono Ledger.verifiedOf_subset
    rw [create_progress h, startProgress, hdone, UInt64.zero_add,
      Layout.bytesIn_eq_bytesOf ((nodup_wanted l indices).filter _), hverified]
    exact UInt64.toNat_ofNat_of_lt' (Nat.lt_of_le_of_lt hle hlt)
  · rw [hqueue]
    exact (pending_sorted l s.ledger indices).imp Nat.ne_of_lt
  · rw [hqueue, mem_pending_iff] at hi
    exact ⟨List.mem_toFinset.2 hi.2.1, hi.2.2⟩
  · rw [hqueue, mem_pending_iff, ← List.mem_toFinset] at hout
    exact Classical.byContradiction fun hv => hout ⟨hinside i hi, hi, hv⟩
  · rw [hfail] at he
    cases he

omit [RangeSource σ] in
/-- A job that ends keeps its counts and its ledger, and its status goes with its result. -/
theorem finish_progress (j : Job) (f : Fetcher) (s : Site σ) :
    (j.finish f s).1.progress.bytesTotal = j.progress.bytesTotal ∧
      (j.finish f s).1.progress.bytesDone = j.progress.bytesDone ∧
      (j.finish f s).2.2.ledger = s.ledger ∧
      ∀ r, (j.finish f s).1.result = some r → (j.finish f s).1.progress.status = r.status := by
  unfold finish
  rcases hf : f.flush s with ⟨e | u, f', s'⟩
  · refine ⟨rfl, rfl, congrArg (fun x => x.2.2.ledger) hf.symm, fun r hr => ?_⟩
    cases hr
    rfl
  · refine ⟨rfl, rfl, congrArg (fun x => x.2.2.ledger) hf.symm, fun r hr => ?_⟩
    cases hr
    rfl

omit [RangeSource σ] in
/-- The account at the end of a job, by its result. -/
theorem Counted.finish (h : Counted l W j s) (f : Fetcher) :
    ((j.finish f s).1.result = some .success → (j.finish f s).1.progress.status = .complete ∧
      j.progress.bytesDone = j.progress.bytesTotal) ∧
    ((j.finish f s).1.result = some .cancelled → j.progress.bytesDone < j.progress.bytesTotal) ∧
    ∀ e, (j.finish f s).1.result = some (.failed e) → e.chunk? ≠ none →
      j.progress.bytesDone < j.progress.bytesTotal := by
  obtain ⟨-, -, -, hstatus⟩ := finish_progress j f s
  obtain ⟨-, hresult⟩ := finish_result j f s
  cases hend : j.failure.or (failure? (f.flush s).1) with
  | some e =>
    rw [hend] at hresult
    refine ⟨fun hr => ?_, fun hr => ?_, fun e' he hchunk => ?_⟩
    · cases hresult.symm.trans hr
    · cases hresult.symm.trans hr
    · cases hresult.symm.trans he
      cases hj : j.failure with
      | some e' =>
        rw [hj] at hend
        cases hend
        obtain ⟨i, hi, -, hv⟩ := h.failed e hj hchunk
        exact h.lt hi hv
      | none =>
        rw [hj, Option.none_or] at hend
        exact absurd (Site.chunk?_of_persist hend) hchunk
  | none =>
    rw [hend] at hresult
    obtain ⟨hfail, -⟩ := Option.or_eq_none_iff.1 hend
    cases hq : j.queue with
    | nil =>
      rw [hq] at hresult
      refine ⟨fun hr => ⟨hstatus _ hr, h.eq fun i hi => ?_⟩, fun hr => ?_, fun e' he => ?_⟩
      · exact h.others hfail i hi (by rw [hq]; exact List.not_mem_nil)
      · cases hresult.symm.trans hr
      · cases hresult.symm.trans he
    | cons i rest =>
      rw [hq] at hresult
      obtain ⟨hi, hv⟩ := h.queue i (by rw [hq]; exact List.mem_cons_self)
      exact ⟨fun hr => (by cases hresult.symm.trans hr), fun _ => h.lt hi hv,
        fun e' he => (by cases hresult.symm.trans he)⟩

/-- A job that is run takes its chunks, up to where it is cancelled, and then ends. -/
theorem runUntil_eq_finish (j : Job) (cancelAt : Option Nat) (f : Fetcher) (s : Site σ) :
    ∃ j₁, (j₁ = (j.advance (cancelAt.getD j.queue.length) f s).1 ∨
        j₁ = (j.advance (cancelAt.getD j.queue.length) f s).1.cancel) ∧
      j.runUntil cancelAt f s = j₁.finish (j.advance (cancelAt.getD j.queue.length) f s).2.1
        (j.advance (cancelAt.getD j.queue.length) f s).2.2 := by
  cases cancelAt with
  | none => exact ⟨_, .inl rfl, rfl⟩
  | some n =>
    refine ⟨_, .inr rfl, ?_⟩
    show (j.advance n f s).1.cancel.run (j.advance n f s).2.1 (j.advance n f s).2.2 = _
    unfold run
    rw [advance_of_stopped (show (j.advance n f s).1.cancel.stopped = true from rfl)]
    rfl

end Job

namespace Fetcher

variable {σ : Type} [RangeSource σ] {f : Fetcher} {s : Site σ}

/-- **Progress accounting.** A transfer of chunks that exist, whatever the source and the disk do
and wherever it is cancelled. Before the first chunk and after each further one, the bytes that are
wanted are those of the distinct chunks named, and the bytes that are done are those of the ones
among them that are verified at that moment: so they never get fewer and never more than wanted.
The job ends with the count that it had then; with success all bytes are done, and if it is
cancelled or fails with an error that names a chunk, some are not. -/
theorem progress_accounting (hs : s.ledger.Used) (cancelAt : Option Nat) {indices : List Nat}
    (hin : ∀ i ∈ indices, i < f.layout.chunkCount) :
    ∃ j, Job.create f.layout s.ledger indices = .ok j ∧
      (∀ n, (j.advance n f s).1.progress.bytesTotal.toNat = ∑ i ∈ indices.toFinset,
          f.layout.chunkLen i ∧
        (j.advance n f s).1.progress.bytesDone.toNat = ∑ i ∈ indices.toFinset with
          (j.advance n f s).2.2.ledger.state i = .verified, f.layout.chunkLen i ∧
        (j.advance n f s).1.progress.bytesDone ≤ (j.advance n f s).1.progress.bytesTotal ∧
        ∀ m, n ≤ m → (j.advance n f s).1.progress.bytesDone ≤
          (j.advance m f s).1.progress.bytesDone) ∧
      ∃ job f' s', f.transfer cancelAt indices s = (.ok job, f', s') ∧
        -- The counts and the ledger at the end are those after the last chunk.
        job.progress.bytesTotal =
          (j.advance (cancelAt.getD j.queue.length) f s).1.progress.bytesTotal ∧
        job.progress.bytesDone =
          (j.advance (cancelAt.getD j.queue.length) f s).1.progress.bytesDone ∧
        s'.ledger = (j.advance (cancelAt.getD j.queue.length) f s).2.2.ledger ∧
        (job.result = some .success → job.progress.status = .complete ∧
          job.progress.bytesDone = job.progress.bytesTotal) ∧
        (job.result = some .cancelled → job.progress.bytesDone < job.progress.bytesTotal) ∧
        ∀ e, job.result = some (.failed e) → e.chunk? ≠ none →
          job.progress.bytesDone < job.progress.bytesTotal := by
  obtain ⟨j, hcreate, -, -, -⟩ := Job.create_of_inside s.ledger hin
  have hstart := Job.counted_create (.inl hs.tracks) hin hcreate
  refine ⟨j, hcreate, fun n => ?_, ?_⟩
  · obtain ⟨hcounted, hlayout, -⟩ := hstart.advance n
    refine ⟨hcounted.total, hcounted.done, hcounted.le, fun m hm => ?_⟩
    obtain ⟨k, rfl⟩ := Nat.exists_eq_add_of_le hm
    rw [← hlayout] at hcounted
    obtain ⟨hlater, -, hkeeps⟩ := hcounted.advance k
    rw [Job.advance_add, UInt64.le_iff_toNat_le, hcounted.done, hlater.done]
    exact Layout.bytesOf_mono (Ledger.verifiedOf_mono hkeeps)
  · obtain ⟨hcounted, -, -⟩ := hstart.advance (cancelAt.getD j.queue.length)
    obtain ⟨j₁, hj₁, hrun⟩ := j.runUntil_eq_finish cancelAt f s
    have hprogress : j₁.progress =
        (j.advance (cancelAt.getD j.queue.length) f s).1.progress := by
      rcases hj₁ with rfl | rfl <;> rfl
    have hcounted₁ : Job.Counted f.layout indices.toFinset j₁
        (j.advance (cancelAt.getD j.queue.length) f s).2.2 := by
      rcases hj₁ with rfl | rfl
      · exact hcounted
      · exact hcounted.cancel
    have htransfer : f.transfer cancelAt indices s =
        (.ok (j.runUntil cancelAt f s).1, (j.runUntil cancelAt f s).2) := by
      unfold transfer
      rw [hcreate]
    obtain ⟨htotal, hdone, hledger, -⟩ := j₁.finish_progress
      (j.advance (cancelAt.getD j.queue.length) f s).2.1
      (j.advance (cancelAt.getD j.queue.length) f s).2.2
    have hend := hcounted₁.finish (j.advance (cancelAt.getD j.queue.length) f s).2.1
    rw [← hrun] at htotal hdone hledger hend
    refine ⟨_, _, _, htransfer, ?_, ?_, hledger, ?_⟩
    · rw [htotal, hprogress]
    · rw [hdone, hprogress]
    · rw [htotal, hdone]
      exact hend

/-- The letters named twice: their eight bytes are wanted and counted once. -/
theorem progress_accounting_letters :
    loggedCopy.ledger.Used ∧ (∀ i ∈ [0, 0], i < lettersFetcher.layout.chunkCount) ∧
      ∃ job f' s', lettersFetcher.transfer none [0, 0] loggedCopy = (.ok job, f', s') ∧
        job.progress.status = .complete ∧ job.progress.bytesTotal.toNat = 8 ∧
        job.progress.bytesDone = job.progress.bytesTotal := by
  have hused : loggedCopy.ledger.Used := ⟨Ledger.empty 1, [], some "s", .inl ⟨1, rfl⟩, rfl⟩
  have hin : ∀ i ∈ [0, 0], i < lettersFetcher.layout.chunkCount := by decide
  have hsuccess : ((lettersFetcher.transfer none [0, 0] loggedCopy).1.toOption.bind
      fun job => job.result) = some .success := by decide +kernel
  obtain ⟨j, -, hcounted, job, f', s', hend, htotal, -, -, hcomplete, -⟩ :=
    progress_accounting hused none hin
  have hresult : job.result = some .success := by
    rw [hend] at hsuccess
    exact hsuccess
  obtain ⟨hstatus, hall⟩ := hcomplete hresult
  refine ⟨hused, hin, job, f', s', hend, hstatus, ?_, hall⟩
  rw [htotal, (hcounted _).1]
  decide +kernel

end Fetcher
end VerifiedCopy
