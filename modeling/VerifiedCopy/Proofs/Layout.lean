/-
# The geometry of chunks

The chunk that holds a position is the quotient of the position and the chunk
size, so a position lies in one chunk and chunks have no position in common. The
chunks that a range overlaps are those that share a position with it.

Key theorems: `chunkRange?_eq_some_iff`, `contains_chunkRange?_iff`,
`eq_of_contains_chunkRange?`, `mem_overlapping_iff`.
-/
import VerifiedCopy.Bytes
import VerifiedCopy.Layout
import VerifiedCopy.Proofs.Range

namespace VerifiedCopy

theorem ceilDiv_zero {size : Nat} (hs : 0 < size) : ceilDiv 0 size = 0 :=
  Nat.div_eq_of_lt (by omega)

/-- Taking one piece off takes one off the number of pieces. -/
theorem ceilDiv_of_pos {a size : Nat} (hs : 0 < size) (ha : 0 < a) :
    ceilDiv a size = ceilDiv (a - size) size + 1 := by
  unfold ceilDiv
  rcases Nat.lt_or_ge a size with h | h
  · have hrest : a - size + size - 1 = size - 1 := by omega
    have hall : a + size - 1 = a - 1 + size := by omega
    rw [hrest, hall, Nat.add_div_right _ hs, Nat.div_eq_of_lt (by omega : a - 1 < size),
      Nat.div_eq_of_lt (by omega : size - 1 < size)]
  · have hall : a + size - 1 = a - size + size - 1 + size := by omega
    rw [hall, Nat.add_div_right _ hs]

namespace Layout

variable {l : Layout} {i j k : Nat} {r r' : ByteRange}

theorem chunkRange?_eq_some_iff : l.chunkRange? i = some r ↔
    i < l.chunkCount ∧ r.start = i * l.chunkSize ∧
      r.stop = min (i * l.chunkSize + l.chunkSize) l.totalSize := by
  unfold chunkRange?
  split
  · rename_i hi
    obtain ⟨start, stop, hle⟩ := r
    rw [Option.some.injEq, ByteRange.mk.injEq]
    exact ⟨fun h => ⟨hi, h.1.symm, h.2.symm⟩, fun h => ⟨h.2.1.symm, h.2.2.symm⟩⟩
  · rename_i hi
    exact ⟨fun h => absurd h.symm (Option.some_ne_none r), fun h => absurd h.1 hi⟩

theorem chunkRange?_eq_none_iff : l.chunkRange? i = none ↔ l.chunkCount ≤ i := by
  unfold chunkRange?
  split
  · rename_i hi
    exact ⟨fun h => absurd h (Option.some_ne_none _), fun h => by omega⟩
  · rename_i hi
    exact ⟨fun _ => by omega, fun _ => rfl⟩

theorem exists_range (hi : i < l.chunkCount) : ∃ r, l.chunkRange? i = some r := by
  cases hr : l.chunkRange? i with
  | none =>
    have hout := chunkRange?_eq_none_iff.1 hr
    omega
  | some r => exact ⟨r, rfl⟩

theorem div_chunkSize_lt (h : k < l.totalSize) : k / l.chunkSize < l.chunkCount := by
  rw [Nat.div_lt_iff_lt_mul l.chunkSize_pos]
  exact Nat.lt_of_lt_of_le h l.totalSize_le

/-- A position lies in chunk `i` if `i` is its quotient. -/
theorem contains_chunkRange?_iff (h : l.chunkRange? i = some r) :
    r.contains k = true ↔ k < l.totalSize ∧ k / l.chunkSize = i := by
  obtain ⟨hi, hstart, hstop⟩ := chunkRange?_eq_some_iff.1 h
  rw [ByteRange.contains_iff, hstart, hstop, Nat.div_eq_iff l.chunkSize_pos]
  have hpos := l.chunkSize_pos
  omega

/-- Every position of the content lies in a chunk. -/
theorem exists_chunkRange? (h : k < l.totalSize) :
    ∃ r, l.chunkRange? (k / l.chunkSize) = some r ∧ r.contains k = true := by
  obtain ⟨r, hr⟩ := exists_range (div_chunkSize_lt h)
  exact ⟨r, hr, (contains_chunkRange?_iff hr).2 ⟨h, rfl⟩⟩

/-- Two chunks with a common position are one. -/
theorem eq_of_contains_chunkRange? (hi : l.chunkRange? i = some r) (hj : l.chunkRange? j = some r')
    (hk : r.contains k = true) (hk' : r'.contains k = true) : i = j := by
  rw [← ((contains_chunkRange?_iff hi).1 hk).2, ← ((contains_chunkRange?_iff hj).1 hk').2]

/-- No chunk is empty. -/
theorem size_pos_of_chunkRange? (h : l.chunkRange? i = some r) : 0 < r.size := by
  obtain ⟨hi, hstart, hstop⟩ := chunkRange?_eq_some_iff.1 h
  have hlt := l.mul_chunkSize_lt hi
  have hpos := l.chunkSize_pos
  unfold ByteRange.size
  omega

theorem chunkLen_of_chunkRange? (h : l.chunkRange? i = some r) :
    l.chunkLen i = r.size := by
  unfold chunkLen
  rw [h]

/-- No chunk is without bytes. -/
theorem chunkLen_pos (h : i < l.chunkCount) : 0 < l.chunkLen i := by
  obtain ⟨r, hr⟩ := exists_range h
  rw [chunkLen_of_chunkRange? hr]
  exact size_pos_of_chunkRange? hr

theorem stop_le_of_range (h : l.chunkRange? i = some r) : r.stop ≤ l.totalSize := by
  obtain ⟨-, -, hstop⟩ := chunkRange?_eq_some_iff.1 h
  omega

/-- The bytes of a chunk lie inside the content. -/
theorem write_inside {b : Bytes} (h : l.chunkRange? i = some r) (hb : b.length = r.size) :
    r.start + b.length ≤ l.totalSize := by
  have hstop := stop_le_of_range h
  have hle := r.start_le_stop
  rw [hb]
  unfold ByteRange.size
  omega

theorem ne_nil_of_range {b : Bytes} (h : l.chunkRange? i = some r) (hb : b.length = r.size) :
    b ≠ [] := by
  have hpos := size_pos_of_chunkRange? h
  exact List.ne_nil_of_length_pos (hb ▸ hpos)

/-- Two chunks have different places. -/
theorem chunkRange?_inj (hi : l.chunkRange? i = some r) (hj : l.chunkRange? j = some r) :
    i = j := by
  have hsize := size_pos_of_chunkRange? hi
  have hstart : r.contains r.start = true := by
    rw [ByteRange.contains_iff]
    unfold ByteRange.size at hsize
    omega
  exact eq_of_contains_chunkRange? hi hj hstart hstart

/-- The chunks that a range overlaps are those of its positions inside the content. -/
theorem mem_overlapping_iff : i ∈ l.overlapping r ↔
    ∃ k, r.contains k = true ∧ k < l.totalSize ∧ k / l.chunkSize = i := by
  have hpos := l.chunkSize_pos
  unfold overlapping overlapSpan
  by_cases hnone : (r.isEmpty || decide (l.totalSize ≤ r.start)) = true
  · rw [if_pos hnone]
    rw [ByteRange.isEmpty, Bool.or_eq_true, beq_iff_eq, decide_eq_true_eq] at hnone
    refine ⟨fun h => by simp at h, ?_⟩
    rintro ⟨k, hk, hlt, -⟩
    rw [ByteRange.contains_iff] at hk
    omega
  · rw [if_neg hnone]
    rw [ByteRange.isEmpty, Bool.or_eq_true, beq_iff_eq, decide_eq_true_eq] at hnone
    have hle := r.start_le_stop
    have hmono : r.start / l.chunkSize ≤ (min r.stop l.totalSize - 1) / l.chunkSize :=
      Nat.div_le_div_right (by omega)
    rw [List.mem_range'_1]
    constructor
    · intro h
      -- The first position that chunk `i` can share with the range.
      have hlast : i * l.chunkSize ≤ min r.stop l.totalSize - 1 :=
        (Nat.le_div_iff_mul_le hpos).1 (by omega)
      have hfirst : r.start < (i + 1) * l.chunkSize :=
        (Nat.div_lt_iff_lt_mul hpos).1 (by omega)
      rw [Nat.succ_mul] at hfirst
      refine ⟨max r.start (i * l.chunkSize), ?_, by omega, ?_⟩
      · rw [ByteRange.contains_iff]; omega
      · rw [Nat.div_eq_iff hpos]; omega
    · rintro ⟨k, hk, hlt, rfl⟩
      rw [ByteRange.contains_iff] at hk
      have hlow : r.start / l.chunkSize ≤ k / l.chunkSize := Nat.div_le_div_right hk.1
      have hhigh : k / l.chunkSize ≤ (min r.stop l.totalSize - 1) / l.chunkSize :=
        Nat.div_le_div_right (by omega)
      omega

/-- An empty range overlaps no chunk. -/
theorem overlapping_of_empty (l : Layout) (h : r.isEmpty = true) : l.overlapping r = [] := by
  unfold overlapping overlapSpan
  rw [h, Bool.true_or]
  rfl

theorem lt_of_mem_overlapping (h : i ∈ l.overlapping r) : i < l.chunkCount := by
  obtain ⟨k, -, hk, rfl⟩ := mem_overlapping_iff.1 h
  exact div_chunkSize_lt hk

end Layout
end VerifiedCopy
