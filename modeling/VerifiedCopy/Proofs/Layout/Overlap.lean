/-
# The chunks that a range overlaps

The span of a range is worked out from two quotients: the chunk of its first position, and
the chunk of its last position inside the file. It holds the chunks that share a position
with the range and no other (`mem_overlapSpan_iff`), also for a range that is empty or that
starts or ends behind the file.

The same computation in words that wrap around (`Words.span`) gives the same span: one is
taken from a position that is not 0, the two quotients are numbers of chunks, and one more
than the last of them is still at most the number of chunks (`Words.span_toNat`).

Key definitions: `Words.final`, `Words.span`.
Key theorems: `mem_overlapSpan_iff`, `Words.span_toNat`, `overlap_exact`.
-/
import VerifiedCopy.Proofs.Layout.Tiling

namespace VerifiedCopy
namespace Layout

variable {l : Layout} {i : Nat} {r : ByteRange}

/-- A range shares a position with some chunk if it is not empty and starts inside the file. -/
def Meets (l : Layout) (r : ByteRange) : Prop := r.start < r.stop ∧ r.start < l.totalSize

/-- Chunk `i` and a range have a position in common. -/
def Shares (l : Layout) (i : Nat) (r : ByteRange) : Prop :=
  ∃ q, l.chunkRange? i = some q ∧ ∃ k, q.contains k = true ∧ r.contains k = true

theorem overlapSpan_of_meets (h : l.Meets r) : l.overlapSpan r =
    (r.start / l.chunkSize, (min r.stop l.totalSize - 1) / l.chunkSize + 1) := by
  obtain ⟨hne, hin⟩ := h
  unfold overlapSpan ByteRange.isEmpty
  rw [if_neg]
  rw [Bool.or_eq_true, beq_iff_eq, decide_eq_true_eq]
  omega

theorem overlapSpan_of_not_meets (h : ¬ l.Meets r) : l.overlapSpan r = (0, 0) := by
  have hle := r.start_le_stop
  unfold Meets at h
  unfold overlapSpan ByteRange.isEmpty
  rw [if_pos]
  rw [Bool.or_eq_true, beq_iff_eq, decide_eq_true_eq]
  omega

theorem mem_overlapping_iff_span : i ∈ l.overlapping r ↔
    (l.overlapSpan r).1 ≤ i ∧ i < (l.overlapSpan r).2 := by
  unfold overlapping
  rw [List.mem_range'_1]
  omega

/-- The chunks that are listed share a position with the range. -/
theorem mem_overlapping_iff_shares : i ∈ l.overlapping r ↔ l.Shares i r := by
  rw [mem_overlapping_iff]
  constructor
  · rintro ⟨k, hk, hlt, rfl⟩
    obtain ⟨q, hq, hkq⟩ := exists_chunkRange? hlt
    exact ⟨q, hq, k, hkq, hk⟩
  · rintro ⟨q, hq, k, hkq, hk⟩
    obtain ⟨hlt, hdiv⟩ := (contains_chunkRange?_iff hq).1 hkq
    exact ⟨k, hk, hlt, hdiv⟩

/-- The span holds the chunks that share a position with the range. -/
theorem mem_overlapSpan_iff :
    (l.overlapSpan r).1 ≤ i ∧ i < (l.overlapSpan r).2 ↔ i < l.chunkCount ∧ l.Shares i r := by
  rw [← mem_overlapping_iff_span, ← mem_overlapping_iff_shares]
  exact ⟨fun h => ⟨lt_of_mem_overlapping h, h⟩, fun h => h.2⟩

/-! ## Spans in words -/

namespace Words

/-- The last position of a range inside the file, in words that wrap around. -/
def final (size stop : UInt64) : UInt64 := min stop size - 1

/-- The span of a range, in words that wrap around. -/
def span (size : UInt64) (c : UInt32) (start stop : UInt64) : UInt32 × UInt32 :=
  if start == stop || decide (size ≤ start) then (0, 0)
  else (index c start, index c (final size stop) + 1)

variable {size : UInt64} {c : UInt32} {start stop : UInt64}

/-- Nothing is taken from zero. -/
theorem final_toNat (h : 0 < (min stop size).toNat) :
    (final size stop).toNat = min stop.toNat size.toNat - 1 := by
  have hone : 1 ≤ min stop size := UInt64.le_iff_toNat_le.2 h
  unfold final
  rw [UInt64.toNat_sub_of_le _ _ hone, UInt64.toNat_min]
  rfl

/-- One more than the number of a chunk fits in 32 bits. -/
theorem index_succ_toNat (hl : ofSizes size.toNat c = .ok l) {offset : UInt64}
    (h : offset < size) : (index c offset + 1).toNat = offset.toNat / c.toNat + 1 := by
  have hlt := div_lt_chunkCount hl h
  have hcount : l.chunkCount < UInt32.size := l.chunkCount_lt
  rw [UInt32.toNat_add, index_toNat hl h, UInt32.toNat_one]
  exact Nat.mod_eq_of_lt (Nat.lt_of_le_of_lt hlt hcount)

theorem final_lt (h : 0 < (min stop size).toNat) : final size stop < size := by
  have hmin := UInt64.toNat_min stop size
  rw [UInt64.lt_iff_toNat_lt, final_toNat h]
  omega

/-- A range that meets the file leaves something to take one from. -/
theorem min_pos_of_meets (hsize : l.totalSize = size.toNat) (hstart : r.start = start.toNat)
    (hstop : r.stop = stop.toNat) (h : l.Meets r) : 0 < (min stop size).toNat := by
  obtain ⟨hne, hin⟩ := h
  rw [UInt64.toNat_min]
  omega

/-- The words leave for the empty span exactly where the numbers do. -/
theorem guard_iff (hsize : l.totalSize = size.toNat) (hstart : r.start = start.toNat)
    (hstop : r.stop = stop.toNat) :
    (start == stop || decide (size ≤ start)) = true ↔ ¬ l.Meets r := by
  have hle := r.start_le_stop
  have heq : start = stop ↔ r.start = r.stop := by
    rw [hstart, hstop]
    exact UInt64.toNat_inj.symm
  rw [Bool.or_eq_true, beq_iff_eq, decide_eq_true_eq, UInt64.le_iff_toNat_le, ← hsize, ← hstart,
    heq]
  unfold Meets
  omega

/-- The span in words is the span. -/
theorem span_toNat (hl : ofSizes size.toNat c = .ok l) (hstart : r.start = start.toNat)
    (hstop : r.stop = stop.toNat) : ((span size c start stop).1.toNat,
      (span size c start stop).2.toNat) = l.overlapSpan r := by
  obtain ⟨hsize, hc⟩ := ofSizes_eq_ok_iff.1 hl
  unfold span
  by_cases h : l.Meets r
  · have hpos := min_pos_of_meets hsize hstart hstop h
    have hin : start < size := by
      rw [UInt64.lt_iff_toNat_lt, ← hstart, ← hsize]
      exact h.2
    rw [if_neg fun hg => (guard_iff hsize hstart hstop).1 hg h, overlapSpan_of_meets h,
      index_toNat hl hin, index_succ_toNat hl (final_lt hpos), final_toNat hpos, hstart, hstop,
      hsize, hc]
  · rw [if_pos ((guard_iff hsize hstart hstop).2 h), overlapSpan_of_not_meets h]
    rfl

end Words

/-- **The overlap is exact.** For every layout and every range with its bounds in words, the span
of the range holds the chunks of the file that have a position in common with it and no other
index, and so does the list of its chunks. Where the span is worked out, and not left empty, one
is taken from a position that is not 0, the chunks of both ends keep their numbers in 32 bits, and
one more than the last of them fits too: the span in words is the span. -/
theorem overlap_exact (size start stop : UInt64) (c : UInt32) {l : Layout} {r : ByteRange}
    (hl : ofSizes size.toNat c = .ok l) (hr : ByteRange.ofBounds start.toNat stop.toNat = .ok r) :
    (∀ i, (l.overlapSpan r).1 ≤ i ∧ i < (l.overlapSpan r).2 ↔ i < l.chunkCount ∧ l.Shares i r) ∧
    (∀ i, i ∈ l.overlapping r ↔ i < l.chunkCount ∧ l.Shares i r) ∧
    (l.Meets r →
      1 ≤ min stop size ∧
      (Words.final size stop).toNat = min r.stop l.totalSize - 1 ∧
      (Words.index c start).toNat = r.start / l.chunkSize ∧
      (Words.index c (Words.final size stop)).toNat =
        (min r.stop l.totalSize - 1) / l.chunkSize ∧
      (Words.index c (Words.final size stop) + 1).toNat =
        (min r.stop l.totalSize - 1) / l.chunkSize + 1) ∧
    (Words.span size c start stop).1.toNat = (l.overlapSpan r).1 ∧
    (Words.span size c start stop).2.toNat = (l.overlapSpan r).2 := by
  obtain ⟨hsize, hc⟩ := ofSizes_eq_ok_iff.1 hl
  obtain ⟨hstart, hstop⟩ := ByteRange.ofBounds_eq_ok_iff.1 hr
  have hspan := Words.span_toNat hl hstart hstop
  refine ⟨fun i => mem_overlapSpan_iff, fun i => ?_, fun h => ?_, congrArg Prod.fst hspan,
    congrArg Prod.snd hspan⟩
  · rw [mem_overlapping_iff_span, mem_overlapSpan_iff]
  · have hpos := Words.min_pos_of_meets hsize hstart hstop h
    have hfinal := Words.final_toNat hpos
    have hlt := Words.final_lt hpos
    have hin : start < size := by
      rw [UInt64.lt_iff_toNat_lt, ← hstart, ← hsize]
      exact h.2
    rw [Words.index_toNat hl hin, Words.index_toNat hl hlt, Words.index_succ_toNat hl hlt, hfinal,
      hstart, hstop, hsize, hc]
    exact ⟨UInt64.le_iff_toNat_le.2 hpos, rfl, rfl, rfl, rfl⟩

/-- The last chunk of the longest layout of single bytes, and a range from it to the last position
there is: the span is that one chunk, and its upper bound is the largest 32-bit number. -/
theorem overlap_exact_last : ∃ l r, ofSizes 4294967295 1 = .ok l ∧
    ByteRange.ofBounds 4294967294 18446744073709551615 = .ok r ∧
    l.overlapSpan r = (4294967294, 4294967295) ∧ l.Shares 4294967294 r ∧
    ¬ l.Shares 4294967293 r := by
  obtain ⟨l, hl⟩ : ∃ l, ofSizes 4294967295 1 = .ok l :=
    ofSizes_ok_iff.2 ⟨by decide, by decide +kernel⟩
  obtain ⟨r, hr⟩ : ∃ r, ByteRange.ofBounds 4294967294 18446744073709551615 = .ok r :=
    ⟨_, dif_pos (by decide)⟩
  have h := overlap_exact 4294967295 4294967294 18446744073709551615 1 hl hr
  have hspan : l.overlapSpan r = (4294967294, 4294967295) :=
    Prod.ext (h.2.2.2.1.symm.trans (by decide)) (h.2.2.2.2.symm.trans (by decide))
  have hin := h.1 4294967294
  have hout := h.1 4294967293
  rw [hspan] at hin hout
  have hcount := (hin.1 (by decide)).1
  exact ⟨l, r, hl, hr, hspan, (hin.1 (by decide)).2,
    fun hs => absurd (hout.2 ⟨by omega, hs⟩).1 (by decide)⟩

end Layout
end VerifiedCopy
