/-
# The positions of ranges

What ranges have to do with each other is said by their bounds, and meant of the positions that
they contain. Two ranges have a position in common (`Shares`) if the later start lies before the
earlier stop (`shares_iff`). This is what `intersect?` looks at, and the range that it gives has
the common positions and no other (`contains_of_intersect?`). A range that is not empty is enclosed
exactly if the other one contains all of its positions (`encloses_iff`).

`overlaps` compares the start of each range with the stop of the other one only, which is enough
for ranges that are not empty. An empty range that lies strictly inside of another one (`Splits`)
overlaps it, although the two have no position in common (`overlaps_without_position`), and there
is no other exception (`overlaps_iff`).

Key definitions: `Shares`, `Splits`.
Key theorems: `shares_iff`, `overlaps_iff`, `contains_of_intersect?`, `encloses_iff`,
`range_predicates`.
-/
import VerifiedCopy.Range

namespace VerifiedCopy
namespace ByteRange

variable {a b c r : ByteRange} {n : Nat}

/-! ### Bounds and positions -/

theorem contains_iff {r : ByteRange} {k : Nat} :
    r.contains k = true ↔ r.start ≤ k ∧ k < r.stop := by
  simp [ByteRange.contains]

theorem ofBounds_eq_ok_iff {start stop : Nat} {r : ByteRange} :
    ofBounds start stop = .ok r ↔ r.start = start ∧ r.stop = stop := by
  obtain ⟨s, e, hle⟩ := r
  unfold ofBounds
  constructor
  · intro h
    split at h
    · cases h
      exact ⟨rfl, rfl⟩
    · cases h
  · intro h
    cases h.1
    cases h.2
    exact dif_pos hle

theorem isEmpty_iff : r.isEmpty = true ↔ r.size = 0 := by
  have hle := r.start_le_stop
  unfold isEmpty size
  rw [beq_iff_eq]
  omega

theorem isEmpty_eq_false_iff : r.isEmpty = false ↔ r.start < r.stop := by
  have hle := r.start_le_stop
  unfold isEmpty
  rw [beq_eq_false_iff_ne]
  omega

theorem size_eq (r : ByteRange) : r.start + r.size = r.stop :=
  Nat.add_sub_cancel' r.start_le_stop

theorem contains_iff_size {k : Nat} :
    r.contains k = true ↔ r.start ≤ k ∧ k < r.start + r.size := by
  rw [contains_iff, size_eq]

theorem size_ne_zero (hne : r.isEmpty = false) : r.size ≠ 0 := fun h => by
  rw [isEmpty_iff.2 h] at hne
  cases hne

/-! ### Common positions -/

/-- Two ranges have a position in common. -/
def Shares (a b : ByteRange) : Prop :=
  ∃ k : UInt64, a.contains k.toNat = true ∧ b.contains k.toNat = true

theorem exists_word (h : n < limit) : ∃ k : UInt64, k.toNat = n :=
  ⟨.ofNat n, UInt64.toNat_ofNat_of_lt' h⟩

/-- The later of the two starts is a common position, or there is none. -/
theorem shares_iff (ha : a.stop < limit) :
    a.Shares b ↔ max a.start b.start < min a.stop b.stop := by
  constructor
  · rintro ⟨k, hka, hkb⟩
    rw [contains_iff] at hka hkb
    omega
  · intro h
    obtain ⟨k, hk⟩ := exists_word (n := max a.start b.start) (by omega)
    refine ⟨k, ?_⟩
    rw [contains_iff, contains_iff]
    omega

/-! ### The common part -/

theorem intersect?_eq_some_iff : a.intersect? b = some c ↔
    max a.start b.start < min a.stop b.stop ∧
      c.start = max a.start b.start ∧ c.stop = min a.stop b.stop := by
  obtain ⟨start, stop, hle⟩ := c
  unfold intersect?
  dsimp only
  split
  · rename_i h
    rw [Option.some.injEq, mk.injEq]
    exact ⟨fun heq => ⟨h, heq.1.symm, heq.2.symm⟩, fun heq => ⟨heq.2.1.symm, heq.2.2.symm⟩⟩
  · rename_i h
    exact ⟨fun hnone => absurd hnone.symm (Option.some_ne_none _), fun heq => absurd heq.1 h⟩

theorem isSome_intersect?_iff :
    (a.intersect? b).isSome = true ↔ max a.start b.start < min a.stop b.stop := by
  rw [Option.isSome_iff_exists]
  constructor
  · rintro ⟨c, hc⟩
    exact (intersect?_eq_some_iff.1 hc).1
  · intro h
    exact ⟨⟨_, _, Nat.le_of_lt h⟩, intersect?_eq_some_iff.2 ⟨h, rfl, rfl⟩⟩

theorem contains_of_intersect? (h : a.intersect? b = some c) (k : Nat) :
    c.contains k = true ↔ a.contains k = true ∧ b.contains k = true := by
  obtain ⟨-, hstart, hstop⟩ := intersect?_eq_some_iff.1 h
  rw [contains_iff, contains_iff, contains_iff, hstart, hstop]
  omega

/-! ### Overlaps -/

/-- `a` is empty, and its place lies strictly inside of `b`. -/
def Splits (a b : ByteRange) : Prop := a.isEmpty = true ∧ b.start < a.start ∧ a.start < b.stop

theorem overlaps_comm (a b : ByteRange) : a.overlaps b = b.overlaps a := Bool.and_comm _ _

/-- Ranges that overlap have a common part, or one of them is empty and splits the other one. -/
theorem overlaps_iff : a.overlaps b = true ↔
    max a.start b.start < min a.stop b.stop ∨ a.Splits b ∨ b.Splits a := by
  have ha := a.start_le_stop
  have hb := b.start_le_stop
  unfold overlaps Splits isEmpty
  rw [Bool.and_eq_true, decide_eq_true_eq, decide_eq_true_eq, beq_iff_eq, beq_iff_eq]
  -- A common part needs two comparisons more, that of each range's own start and stop.
  omega

theorem overlaps_iff_of_nonempty (ha : a.isEmpty = false) (hb : b.isEmpty = false) :
    a.overlaps b = true ↔ max a.start b.start < min a.stop b.stop := by
  rw [overlaps_iff]
  refine or_iff_left ?_
  rintro (h | h)
  · exact Bool.false_ne_true (ha.symm.trans h.1)
  · exact Bool.false_ne_true (hb.symm.trans h.1)

/-! ### Enclosure -/

/-- The first and the last position of the inner range decide. -/
theorem encloses_iff (hb : b.stop < limit) (hne : b.isEmpty = false) :
    a.encloses b = true ↔
      ∀ k : UInt64, b.contains k.toNat = true → a.contains k.toNat = true := by
  rw [isEmpty_eq_false_iff] at hne
  unfold encloses
  rw [Bool.and_eq_true, decide_eq_true_eq, decide_eq_true_eq]
  constructor
  · intro h k hk
    rw [contains_iff] at hk ⊢
    omega
  · intro h
    obtain ⟨first, hfirst⟩ := exists_word (n := b.start) (by omega)
    obtain ⟨last, hlast⟩ := exists_word (n := b.stop - 1) (by omega)
    have hlow := h first (contains_iff.2 (by omega))
    have hhigh := h last (contains_iff.2 (by omega))
    rw [contains_iff] at hlow hhigh
    omega

/-! ### All predicates -/

/-- **Ranges and their positions.** For all ranges with bounds in words, empty ones included: two
of them overlap exactly if they have a position in common, or one is empty and lies strictly inside
of the other one; two that are not empty overlap exactly if they intersect. Any two intersect
exactly if they have a position in common, and the intersection contains the common positions and
no other. Overlapping is symmetric. A range that is not empty is enclosed exactly if the other one
contains all of its positions. -/
theorem range_predicates {a b : ByteRange} (ha : a.stop < limit) (hb : b.stop < limit) :
    (a.overlaps b = true ↔ a.Shares b ∨ a.Splits b ∨ b.Splits a) ∧
    (a.isEmpty = false → b.isEmpty = false →
      (a.overlaps b = true ↔ (a.intersect? b).isSome = true)) ∧
    ((a.intersect? b).isSome = true ↔ a.Shares b) ∧
    (∀ c, a.intersect? b = some c → ∀ k : UInt64,
      c.contains k.toNat = true ↔ a.contains k.toNat = true ∧ b.contains k.toNat = true) ∧
    a.overlaps b = b.overlaps a ∧
    (b.isEmpty = false → (a.encloses b = true ↔
      ∀ k : UInt64, b.contains k.toNat = true → a.contains k.toNat = true)) := by
  have hshares := shares_iff (b := b) ha
  refine ⟨overlaps_iff.trans (or_congr_left hshares.symm), fun hane hbne => ?_, ?_,
    fun c hc k => contains_of_intersect? hc k.toNat, overlaps_comm a b, encloses_iff hb⟩
  · exact (overlaps_iff_of_nonempty hane hbne).trans isSome_intersect?_iff.symm
  · exact isSome_intersect?_iff.trans hshares.symm

/-- Two ranges at the end of all positions that have one position in common, and none of which
encloses the other one. -/
theorem range_predicates_at_the_end : ∃ a b : ByteRange,
    a.stop < limit ∧ b.stop < limit ∧ a.isEmpty = false ∧ b.isEmpty = false ∧
      a.overlaps b = true ∧ a.Shares b ∧
      ¬ ∀ k : UInt64, b.contains k.toNat = true → a.contains k.toNat = true := by
  let a : ByteRange := ⟨0, 18446744073709551614, by decide⟩
  let b : ByteRange := ⟨18446744073709551613, 18446744073709551615, by decide⟩
  obtain ⟨-, hjoint, hshares, -, -, hall⟩ :=
    range_predicates (a := a) (b := b) (by decide) (by decide)
  have hane : a.isEmpty = false := by decide
  have hbne : b.isEmpty = false := by decide
  have hsome : (a.intersect? b).isSome = true := by decide
  refine ⟨a, b, by decide, by decide, hane, hbne, (hjoint hane hbne).2 hsome, hshares.1 hsome,
    fun h => ?_⟩
  exact absurd ((hall hbne).2 h) (by decide)

/-- An empty range in the middle of another one overlaps it, but the two do not intersect. -/
theorem overlaps_without_position :
    ¬ ∀ a b : ByteRange, a.stop < limit → b.stop < limit →
      (a.overlaps b = true ↔ (a.intersect? b).isSome = true) ∧
      (a.overlaps b = true ↔ a.Shares b) := by
  intro h
  obtain ⟨hiff, -⟩ := h ⟨0, 100, by decide⟩ ⟨40, 40, by decide⟩ (by decide) (by decide)
  exact absurd (hiff.1 (by decide)) (by decide)

end ByteRange
end VerifiedCopy
