/-
# The totals of a ledger agree

A chunk is verified or missing, and not both. So the verified and the missing chunks
together are all chunks, and their bytes together are those of the file
(`verifiedBytes_add_missing`). No chunk is without bytes, so that none is missing exactly if
the verified ones have all bytes of the file (`bytesIn_eq_zero_iff`).

This needs no invariant: it holds of any two rows of bits, spare bits and chunks in flight
included, and hence of every ledger that calls lead to. Added up in words of 64 bits the
bytes are the same, since no part of them is more than those of the file
(`Words.bytesIn_toNat`).

Key definitions: `verifiedChunks`, `Layout.Words.bytesIn`, `Totals`.
Key theorems: `verifiedCount_add_missing`, `verifiedBytes_add_missing`, `totals_agree`.
-/
import VerifiedCopy.Proofs.Desk
import VerifiedCopy.Proofs.Layout.Tiling

namespace VerifiedCopy

/-! ### The bytes of some chunks -/

namespace Layout

variable {l : Layout} {is js : List Nat}

theorem bytesIn_filter_add (l : Layout) (p : Nat → Bool) (is : List Nat) :
    l.bytesIn (is.filter p) + l.bytesIn (is.filter fun i => !p i) = l.bytesIn is := by
  induction is with
  | nil => rfl
  | cons i rest ih =>
    cases hp : p i with
    | false =>
      rw [List.filter_cons_of_neg (by simp [hp]), List.filter_cons_of_pos (by simp [hp])]
      simp only [bytesIn]
      omega
    | true =>
      rw [List.filter_cons_of_pos hp, List.filter_cons_of_neg (by simp [hp])]
      simp only [bytesIn]
      omega

/-- Some of the chunks have some of the bytes. -/
theorem bytesIn_le_of_sublist (h : is.Sublist js) : l.bytesIn is ≤ l.bytesIn js := by
  induction h with
  | slnil => exact Nat.le_refl _
  | cons i _ ih => exact Nat.le_trans ih (Nat.le_add_left _ _)
  | cons_cons i _ ih => exact Nat.add_le_add_left ih _

/-- Only no chunks have no bytes. -/
theorem bytesIn_eq_zero_iff (h : ∀ i ∈ is, i < l.chunkCount) : l.bytesIn is = 0 ↔ is = [] := by
  cases is with
  | nil => exact ⟨fun _ => rfl, fun _ => rfl⟩
  | cons i rest =>
    have hpos := chunkLen_pos (h i List.mem_cons_self)
    refine ⟨fun hzero => ?_, fun hnil => nomatch hnil⟩
    rw [bytesIn] at hzero
    omega

/-- The number of bytes in some chunks, added up in words that wrap around. -/
def Words.bytesIn (l : Layout) (is : List Nat) : UInt64 :=
  is.foldl (fun sum i => sum + UInt64.ofNat (l.chunkLen i)) 0

theorem Words.bytesIn_eq (l : Layout) (is : List Nat) :
    Words.bytesIn l is = UInt64.ofNat (l.bytesIn is) := by
  have hfrom : ∀ (is : List Nat) (sum : UInt64),
      is.foldl (fun sum i => sum + UInt64.ofNat (l.chunkLen i)) sum =
        sum + UInt64.ofNat (l.bytesIn is) := by
    intro is
    induction is with
    | nil => exact fun sum => (UInt64.add_zero sum).symm
    | cons i rest ih =>
      intro sum
      rw [List.foldl_cons, ih, Layout.bytesIn, UInt64.ofNat_add, UInt64.add_assoc]
  exact (hfrom is 0).trans (UInt64.zero_add _)

/-- The bytes of some chunks of the file, each counted once, do not wrap around. -/
theorem Words.bytesIn_toNat (h : is.Sublist (List.range l.chunkCount)) :
    (Words.bytesIn l is).toNat = l.bytesIn is := by
  have hle := bytesIn_le_of_sublist (l := l) h
  rw [bytesIn_range] at hle
  rw [Words.bytesIn_eq]
  exact UInt64.toNat_ofNat_of_lt' (Nat.lt_of_le_of_lt hle l.totalSize_lt)

end Layout

/-! ### Verified and missing -/

namespace Ledger

open Desk (Call)

variable {g : Ledger} {l : Layout} {i : Nat}

/-- The chunks that are verified, ascending. -/
def verifiedChunks (g : Ledger) : List Nat :=
  (List.range g.chunkCount).filter fun i => g.state i = .verified

theorem mem_missing_iff : i ∈ g.missing ↔ i < g.chunkCount ∧ g.state i ≠ .verified := by
  unfold missing
  rw [List.mem_filter, List.mem_range, decide_eq_true_eq]

theorem missing_ascending (g : Ledger) : g.missing.Pairwise (· < ·) :=
  List.pairwise_lt_range.filter _

theorem missing_eq_filter_not (g : Ledger) :
    g.missing = (List.range g.chunkCount).filter fun i => !decide (g.state i = .verified) := by
  unfold missing
  simp only [ne_eq, decide_not]

/-- Every chunk is counted once, as verified or as missing. -/
theorem verifiedCount_add_missing (g : Ledger) :
    g.verifiedCount + g.missing.length = g.chunkCount := by
  have hsplit := List.length_eq_countP_add_countP (l := List.range g.chunkCount)
    fun i => decide (g.state i = .verified)
  rw [List.length_range] at hsplit
  rw [missing_eq_filter_not, ← List.countP_eq_length_filter]
  unfold verifiedCount
  simpa using hsplit.symm

theorem verifiedBytes_add_missing (hl : l.chunkCount = g.chunkCount) :
    g.verifiedBytes l + l.bytesIn g.missing = l.totalSize := by
  have hsplit := l.bytesIn_filter_add (fun i => decide (g.state i = .verified))
    (List.range g.chunkCount)
  rw [missing_eq_filter_not, ← l.bytesIn_range, hl]
  exact hsplit

theorem isComplete_iff_missing : g.isComplete = true ↔ g.missing = [] := by
  have hcount := g.verifiedCount_add_missing
  unfold isComplete
  rw [beq_iff_eq, ← List.length_eq_zero_iff]
  omega

theorem missing_eq_nil_iff (hl : l.chunkCount = g.chunkCount) :
    g.missing = [] ↔ g.verifiedBytes l = l.totalSize := by
  have hbytes := verifiedBytes_add_missing hl
  have hin : ∀ i ∈ g.missing, i < l.chunkCount := fun i hi => by
    rw [hl]
    exact (mem_missing_iff.1 hi).1
  rw [← Layout.bytesIn_eq_zero_iff hin]
  omega

/-! ### All totals -/

/-- The totals of a ledger agree with each other and with the file. -/
structure Totals (g : Ledger) (l : Layout) : Prop where
  count : g.verifiedCount + g.missing.length = g.chunkCount
  ascending : g.missing.Pairwise (· < ·)
  mem_missing : ∀ i, i ∈ g.missing ↔ i < g.chunkCount ∧ g.state i ≠ .verified
  bytes : g.verifiedBytes l + l.bytesIn g.missing = l.totalSize
  complete_iff_missing : g.isComplete = true ↔ g.missing = []
  complete_iff_bytes : g.isComplete = true ↔ g.verifiedBytes l = l.totalSize
  /-- The number of verified chunks fits in 32 bits. -/
  count_toNat : (UInt32.ofNat g.verifiedCount).toNat = g.verifiedCount
  /-- No sum wraps around on the way to the verified bytes. -/
  verified_toNat : ∀ k, (Layout.Words.bytesIn l (g.verifiedChunks.take k)).toNat =
    l.bytesIn (g.verifiedChunks.take k)
  verifiedBytes_toNat :
    (Layout.Words.bytesIn l g.verifiedChunks).toNat = g.verifiedBytes l
  /-- Nor on the way to the missing ones, nor when the two are added. -/
  missing_toNat : ∀ k, (Layout.Words.bytesIn l (g.missing.take k)).toNat =
    l.bytesIn (g.missing.take k)
  total_toNat : (Layout.Words.bytesIn l g.verifiedChunks +
    Layout.Words.bytesIn l g.missing).toNat = l.totalSize

theorem totals (hl : l.chunkCount = g.chunkCount) : Totals g l := by
  have hcount := g.verifiedCount_add_missing
  have hbytes := verifiedBytes_add_missing hl
  have hfits : g.chunkCount < UInt32.size := hl ▸ l.chunkCount_lt
  have hverified : g.verifiedChunks.Sublist (List.range l.chunkCount) := by
    rw [hl]
    exact List.filter_sublist
  have hmissing : g.missing.Sublist (List.range l.chunkCount) := by
    rw [hl]
    exact List.filter_sublist
  have hsum : (Layout.Words.bytesIn l g.verifiedChunks).toNat = g.verifiedBytes l :=
    Layout.Words.bytesIn_toNat hverified
  exact {
    count := hcount
    ascending := g.missing_ascending
    mem_missing := fun _ => mem_missing_iff
    bytes := hbytes
    complete_iff_missing := isComplete_iff_missing
    complete_iff_bytes := isComplete_iff_missing.trans (missing_eq_nil_iff hl)
    count_toNat := UInt32.toNat_ofNat_of_lt' (by omega)
    verified_toNat := fun k =>
      Layout.Words.bytesIn_toNat ((List.take_sublist k _).trans hverified)
    verifiedBytes_toNat := hsum
    missing_toNat := fun k =>
      Layout.Words.bytesIn_toNat ((List.take_sublist k _).trans hmissing)
    total_toNat := by
      rw [UInt64.toNat_add, hsum, Layout.Words.bytesIn_toNat hmissing, hbytes]
      exact Nat.mod_eq_of_lt l.totalSize_lt }

/-- **The totals agree.** After any calls, with tickets that are stale or not, on any ledger, new or
restored, with spare bits set or not, and for any layout with as many chunks: verified and missing
chunks add up to all of them, in number and in bytes; the missing ones are, ascending, those whose
state is not verified, in flight or not; and that all chunks are verified, that none is missing and
that the verified ones have all bytes of the file are the same. Nothing on the way is lost in
words. -/
theorem totals_agree (g : Ledger) (calls : List Call) (hl : l.chunkCount = g.chunkCount) :
    Totals (g.after calls).ledger l :=
  totals (hl.trans (g.after_chunkCount calls).symm)

/-- Three chunks of 4, 4 and 2 bytes, with all spare bits set: the second one is bad and is being
fetched again. -/
theorem totals_agree_refetching : ∃ (g : Ledger) (l : Layout),
    (g.present.bytes = [255] ∧ g.valid.bytes = [253] ∧ l.totalSize = 10 ∧ l.chunkSize = 4) ∧
      l.chunkCount = g.chunkCount ∧
      (g.after [.claim 1]).ledger.state 1 = .fetching ∧
      (g.after [.claim 1]).ledger.missing = [1] ∧
      (g.after [.claim 1]).ledger.verifiedBytes l = 6 ∧
      (g.after [.claim 1]).ledger.isComplete = false := by
  let g : Ledger := { chunkCount := 3, present := ⟨[255], rfl⟩, valid := ⟨[253], rfl⟩ }
  let l : Layout := ⟨10, 4, by decide, by decide, by decide⟩
  have hl : l.chunkCount = g.chunkCount := by decide
  have htotals : Totals (g.after [.claim 1]).ledger l := totals_agree g [.claim 1] hl
  have hmissing : (g.after [.claim 1]).ledger.missing = [1] := by decide
  have hbytes := htotals.bytes
  rw [hmissing] at hbytes
  have hlen : l.bytesIn [1] = 4 := by decide
  have htotal : l.totalSize = 10 := rfl
  refine ⟨g, l, ⟨rfl, rfl, rfl, rfl⟩, hl, by decide, hmissing, by omega, ?_⟩
  rw [Bool.eq_false_iff, ne_eq, htotals.complete_iff_missing, hmissing]
  exact List.cons_ne_nil _ _

end Ledger
end VerifiedCopy
