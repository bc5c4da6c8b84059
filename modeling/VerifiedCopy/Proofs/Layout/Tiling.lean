/-
# The chunks tile the file

`Tiles lo rs hi` says that the ranges `rs` run from `lo` to `hi` without a gap,
an overlap or an empty range. The ranges of a layout tile its file from 0 to the
end (`tiles_ranges`), and the addresses behind them fit their words: chunk
numbers in 32 bits, positions in 64. The second is said by the same computations
in words that wrap around (`Words.count`, `Words.start`, `Words.reach`,
`Words.index`), which give the numbers of the layout for every file that has one,
up to the largest (`Words.reach_toNat`, `Words.index_toNat`).

Key definitions: `Tiles`, `Words.count`, `Words.start`, `Words.reach`, `Words.index`.
Key theorems: `ofSizes_ok_iff`, `tiles_ranges`, `addressing`.
-/
import Mathlib.Data.Rat.Floor
import VerifiedCopy.Proofs.Layout
import VerifiedCopy.Proofs.Tree.Rows

namespace VerifiedCopy

/-- Pieces that are as many as the quotient rounded up hold everything, and fewer do not. -/
theorem ceilDiv_le_iff {a b q : Nat} (hb : 0 < b) : ceilDiv a b ≤ q ↔ a ≤ q * b := by
  unfold ceilDiv
  rw [← Nat.lt_succ_iff, Nat.div_lt_iff_lt_mul hb, Nat.succ_mul]
  omega

/-- The quotient rounded up is that of the fractions. -/
theorem ceilDiv_eq_ceil (a : Nat) {b : Nat} (hb : 0 < b) :
    ceilDiv a b = ⌈(a : ℚ) / b⌉₊ := by
  have hb' : (0 : ℚ) < b := by exact_mod_cast hb
  refine eq_of_forall_ge_iff fun q => ?_
  rw [ceilDiv_le_iff hb, Nat.ceil_le, div_le_iff₀ hb']
  exact_mod_cast Iff.rfl

/-- Rounding up is one more if there is a rest. -/
theorem ceilDiv_eq_div {a b : Nat} (hb : 0 < b) :
    ceilDiv a b = if a % b = 0 then a / b else a / b + 1 := by
  have hdiv := Nat.div_add_mod a b
  have hmod := Nat.mod_lt a hb
  unfold ceilDiv
  by_cases h : a % b = 0
  · have hsum : a + b - 1 = b - 1 + b * (a / b) := by omega
    rw [if_pos h, hsum, Nat.add_mul_div_left _ _ hb, Nat.div_eq_of_lt (by omega), Nat.zero_add]
  · have hsum : a + b - 1 = a % b - 1 + b * (a / b + 1) := by
      rw [Nat.mul_succ]
      omega
    rw [if_neg h, hsum, Nat.add_mul_div_left _ _ hb, Nat.div_eq_of_lt (by omega), Nat.zero_add]

namespace Layout

/-- The ranges run from `lo` to `hi` without a gap, an overlap or an empty range. -/
def Tiles : Nat → List ByteRange → Nat → Prop
  | lo, [], hi => lo = hi
  | lo, r :: rest, hi => r.start = lo ∧ 0 < r.size ∧ Tiles r.stop rest hi

/-- The sizes of the pieces add up to the length of what they tile. -/
theorem Tiles.sum_size : ∀ {rs : List ByteRange} {lo hi : Nat}, Tiles lo rs hi →
    lo + (rs.map ByteRange.size).sum = hi
  | [], lo, hi, h => by simpa [Tiles] using h
  | r :: rest, lo, hi, ⟨hstart, hpos, h⟩ => by
    have hrest := h.sum_size
    have hle := r.start_le_stop
    simp only [List.map_cons, List.sum_cons, ByteRange.size]
    omega

variable {l : Layout} {i : Nat} {r : ByteRange}

/-- There is a layout exactly if the chunks are not empty and can be numbered with 32 bits. -/
theorem ofSizes_ok_iff {size : Nat} {c : UInt32} :
    (∃ l, ofSizes size c = .ok l) ↔ 0 < c.toNat ∧ ceilDiv size c.toNat < UInt32.size := by
  unfold ofSizes
  by_cases hpos : 0 < c.toNat
  · by_cases hlt : ceilDiv size c.toNat < UInt32.size
    · simp [hpos, hlt]
    · simp [hpos, hlt]
  · simp [hpos]

/-- The chunks from `i` on tile what lies behind the first `i`. -/
theorem tiles_from : ∀ (n i : Nat), i + n = l.chunkCount →
    Tiles (min (i * l.chunkSize) l.totalSize) ((List.range' i n).filterMap l.chunkRange?)
      l.totalSize
  | 0, i, hi => by
    have hle : l.totalSize ≤ i * l.chunkSize := by
      have h := l.totalSize_le
      rwa [← hi] at h
    simpa [Tiles] using hle
  | n + 1, i, hi => by
    have hlt := l.mul_chunkSize_lt (i := i) (by omega)
    obtain ⟨r, hr⟩ := l.exists_range (i := i) (by omega)
    obtain ⟨-, hstart, hstop⟩ := chunkRange?_eq_some_iff.1 hr
    have hrest := tiles_from n (i + 1) (by omega)
    rw [Nat.succ_mul, ← hstop] at hrest
    rw [List.range'_succ, List.filterMap_cons_some hr]
    exact ⟨by omega, size_pos_of_chunkRange? hr, hrest⟩

/-- **The chunks tile the file.** -/
theorem tiles_ranges (l : Layout) : Tiles 0 l.ranges l.totalSize := by
  have h := tiles_from (l := l) l.chunkCount 0 (by omega)
  rwa [Nat.zero_mul, Nat.zero_min, ← List.range_eq_range'] at h

/-- The list of the ranges is the table of the chunks. -/
theorem ranges_getElem? (l : Layout) (i : Nat) : l.ranges[i]? = l.chunkRange? i := by
  have hall : ∀ j ∈ List.range l.chunkCount, l.chunkRange? j =
      some ((l.chunkRange? j).getD (ByteRange.mk 0 0 (Nat.le_refl 0))) := by
    intro j hj
    obtain ⟨r, hr⟩ := exists_range (List.mem_range.1 hj)
    rw [hr]
    rfl
  unfold ranges
  rw [List.filterMap_congr hall, List.filterMap_eq_map', List.getElem?_map]
  by_cases hi : i < l.chunkCount
  · rw [List.getElem?_range hi, hall i (List.mem_range.2 hi)]
    rfl
  · have hnone : l.chunkRange? i = none := chunkRange?_eq_none_iff.2 (by omega)
    rw [hnone, List.getElem?_eq_none (by simpa using hi)]
    rfl

theorem length_ranges (l : Layout) : l.ranges.length = l.chunkCount := by
  have h : ∀ i, l.ranges.length ≤ i ↔ l.chunkCount ≤ i := by
    intro i
    rw [← List.getElem?_eq_none_iff, ranges_getElem?, chunkRange?_eq_none_iff]
  have h₁ := (h l.ranges.length).1 (Nat.le_refl _)
  have h₂ := (h l.chunkCount).2 (Nat.le_refl _)
  omega

/-- Only the last chunk may be short. -/
theorem size_eq_of_lt (h : l.chunkRange? i = some r) (hi : i + 1 < l.chunkCount) :
    r.size = l.chunkSize := by
  obtain ⟨-, hstart, hstop⟩ := chunkRange?_eq_some_iff.1 h
  have hlt := l.mul_chunkSize_lt hi
  rw [Nat.succ_mul] at hlt
  unfold ByteRange.size
  omega

/-- The chunk of a position is the one whose range contains it, and there is no other. -/
theorem chunkIndexOf?_eq_some_iff {k : Nat} : l.chunkIndexOf? k = some i ↔
    ∃ r, l.chunkRange? i = some r ∧ r.contains k = true := by
  unfold chunkIndexOf?
  by_cases hk : k < l.totalSize
  · rw [if_pos hk, Option.some.injEq]
    constructor
    · rintro rfl
      exact exists_chunkRange? hk
    · rintro ⟨r, hr, hin⟩
      exact ((contains_chunkRange?_iff hr).1 hin).2
  · rw [if_neg hk]
    constructor
    · intro h
      simp at h
    · rintro ⟨r, hr, hin⟩
      exact absurd ((contains_chunkRange?_iff hr).1 hin).1 hk

theorem chunkIndexOf?_eq_none_iff {k : Nat} : l.chunkIndexOf? k = none ↔ l.totalSize ≤ k := by
  unfold chunkIndexOf?
  by_cases hk : k < l.totalSize
  · simp [hk]
  · simp [hk, Nat.le_of_not_lt hk]

/-- The bytes of some chunks are the sum of their sizes. -/
theorem bytesIn_eq_sum : ∀ is : List Nat, l.bytesIn is =
    ((is.filterMap l.chunkRange?).map ByteRange.size).sum
  | [] => rfl
  | i :: rest => by
    cases hr : l.chunkRange? i with
    | none => simp [bytesIn, chunkLen, hr, bytesIn_eq_sum rest]
    | some r => simp [bytesIn, chunkLen, hr, bytesIn_eq_sum rest]

/-- All chunks together have the bytes of the file. -/
theorem bytesIn_range (l : Layout) : l.bytesIn (List.range l.chunkCount) = l.totalSize := by
  have hsum := l.tiles_ranges.sum_size
  rw [Nat.zero_add] at hsum
  rw [bytesIn_eq_sum]
  exact hsum

/-! ## Addresses in words -/

namespace Words

/-- `a / b` rounded up, in words that wrap around. -/
def ceil (a b : UInt64) : UInt64 :=
  if a % b = 0 then a / b else a / b + 1

/-- The number of chunks, in words that wrap around. -/
def count (size : UInt64) (c : UInt32) : UInt64 :=
  if size % c.toUInt64 = 0 then size / c.toUInt64 else size / c.toUInt64 + 1

/-- Where chunk `i` starts, in words that wrap around. -/
def start (c i : UInt32) : UInt64 := i.toUInt64 * c.toUInt64

/-- Where chunk `i` would end if it were not the last, in words that wrap around. -/
def reach (c i : UInt32) : UInt64 := start c i + c.toUInt64

/-- The chunk of a position, cut down to 32 bits. -/
def index (c : UInt32) (offset : UInt64) : UInt32 := (offset / c.toUInt64).toUInt32

variable {size : UInt64} {c : UInt32}

theorem ceil_toNat {a b : UInt64} (hb : 0 < b.toNat) :
    (ceil a b).toNat = ceilDiv a.toNat b.toNat := by
  rw [ceilDiv_eq_div hb]
  unfold ceil
  by_cases h : a % b = 0
  · have hzero : a.toNat % b.toNat = 0 := by
      rw [← UInt64.toNat_mod, h]
      rfl
    rw [if_pos h, if_pos hzero, UInt64.toNat_div]
  · have hrest : a.toNat % b.toNat ≠ 0 := by
      rw [← UInt64.toNat_mod]
      exact fun h0 => h (UInt64.toNat_inj.1 h0)
    -- With a rest the quotient is below the number itself, so one more still fits.
    have hlt : a.toNat / b.toNat < a.toNat := by
      apply Nat.div_lt_self
      · exact Nat.pos_of_ne_zero fun h0 => hrest (by rw [h0, Nat.zero_mod])
      · have hone : b.toNat ≠ 1 := fun h1 => hrest (by rw [h1, Nat.mod_one])
        omega
    have hsize := a.toNat_lt
    rw [if_neg h, if_neg hrest, UInt64.toNat_add, UInt64.toNat_div, UInt64.toNat_one]
    exact Nat.mod_eq_of_lt (by omega)

theorem count_toNat (hc : 0 < c.toNat) : (count size c).toNat = ceilDiv size.toNat c.toNat := by
  rw [← UInt32.toNat_toUInt64] at hc ⊢
  exact ceil_toNat hc

/-- The product of two 32-bit numbers and one of them more fit in 64 bits. -/
theorem reach_lt (c i : UInt32) : i.toNat * c.toNat + c.toNat < UInt64.size := by
  have hi := i.toNat_lt
  have hc := c.toNat_lt
  calc i.toNat * c.toNat + c.toNat = (i.toNat + 1) * c.toNat := by rw [Nat.succ_mul]
    _ ≤ UInt32.size * c.toNat := Nat.mul_le_mul_right _ hi
    _ < UInt32.size * UInt32.size := Nat.mul_lt_mul_of_pos_left hc (by decide)
    _ = UInt64.size := by decide

theorem start_toNat (c i : UInt32) : (start c i).toNat = i.toNat * c.toNat := by
  have hlt := reach_lt c i
  unfold start
  rw [UInt64.toNat_mul, UInt32.toNat_toUInt64, UInt32.toNat_toUInt64]
  exact Nat.mod_eq_of_lt (Nat.lt_of_le_of_lt (Nat.le_add_right _ _) hlt)

theorem reach_toNat (c i : UInt32) : (reach c i).toNat = i.toNat * c.toNat + c.toNat := by
  unfold reach
  rw [UInt64.toNat_add, start_toNat, UInt32.toNat_toUInt64]
  exact Nat.mod_eq_of_lt (reach_lt c i)

theorem div_lt_chunkCount (hl : ofSizes size.toNat c = .ok l) {offset : UInt64}
    (h : offset < size) : offset.toNat / c.toNat < l.chunkCount := by
  obtain ⟨hsize, hc⟩ := ofSizes_eq_ok_iff.1 hl
  rw [← hc]
  exact div_chunkSize_lt (by rw [hsize]; exact UInt64.lt_iff_toNat_lt.1 h)

/-- The number of the chunk of a position of the file loses nothing in 32 bits. -/
theorem index_toNat (hl : ofSizes size.toNat c = .ok l) {offset : UInt64} (h : offset < size) :
    (index c offset).toNat = offset.toNat / c.toNat := by
  have hlt := div_lt_chunkCount hl h
  have hcount := l.chunkCount_lt
  unfold index
  rw [UInt64.toNat_toUInt32, UInt64.toNat_div, UInt32.toNat_toUInt64]
  exact Nat.mod_eq_of_lt (Nat.lt_trans hlt hcount)

end Words

/-- **Addressing.** For every size and every chunk size there is a layout exactly if the chunks are
not empty and there are fewer than `2 ^ 32` of them. Then the ranges of its chunks tile the file;
all but the last have the chunk size; their sizes add up to that of the file; there is no chunk
from their number on; and a position belongs to the one chunk whose range contains it, or to none
if it lies behind the end. Nothing on the way is lost in words. -/
theorem addressing (size : UInt64) (c : UInt32) :
    ((∃ l, ofSizes size.toNat c = .ok l) ↔
      0 < c.toNat ∧ ⌈(size.toNat : ℚ) / c.toNat⌉₊ ≤ 2 ^ 32 - 1) ∧
    ∀ l, ofSizes size.toNat c = .ok l →
      l.chunkCount = ⌈(size.toNat : ℚ) / c.toNat⌉₊ ∧
      (l.ranges.length = l.chunkCount ∧ ∀ i, l.ranges[i]? = l.chunkRange? i) ∧
      Tiles 0 l.ranges size.toNat ∧
      (∀ i r, l.chunkRange? i = some r → i + 1 < l.chunkCount → r.size = c.toNat) ∧
      (l.ranges.map ByteRange.size).sum = size.toNat ∧
      l.bytesIn (List.range l.chunkCount) = size.toNat ∧
      (∀ i, l.chunkRange? i = none ↔ l.chunkCount ≤ i) ∧
      (∀ offset : UInt64,
        (∀ i, l.chunkIndexOf? offset.toNat = some i ↔
          ∃ r, l.chunkRange? i = some r ∧ r.contains offset.toNat = true) ∧
        (∀ i j, l.chunkIndexOf? offset.toNat = some i →
          (∃ r, l.chunkRange? j = some r ∧ r.contains offset.toNat = true) → j = i) ∧
        (l.chunkIndexOf? offset.toNat = none ↔ size ≤ offset)) ∧
      -- The same computations in words give the same numbers.
      (Words.count size c).toNat = l.chunkCount ∧
      (Words.count size c).toUInt32.toNat = l.chunkCount ∧
      (∀ (i : UInt32) r, l.chunkRange? i.toNat = some r →
        (Words.start c i).toNat = i.toNat * c.toNat ∧
        (Words.reach c i).toNat = i.toNat * c.toNat + c.toNat ∧
        (Words.start c i).toNat = r.start ∧
        (min (Words.reach c i) size).toNat = r.stop) ∧
      ∀ offset : UInt64, offset < size →
        (Words.index c offset).toNat = offset.toNat / c.toNat ∧
        l.chunkIndexOf? offset.toNat = some (Words.index c offset).toNat := by
  refine ⟨?_, fun l hl => ?_⟩
  · rw [ofSizes_ok_iff]
    refine and_congr_right fun hpos => ?_
    rw [← ceilDiv_eq_ceil _ hpos]
    have h32 : UInt32.size = 2 ^ 32 := rfl
    omega
  · obtain ⟨hsize, hc⟩ := ofSizes_eq_ok_iff.1 hl
    have hpos : 0 < c.toNat := hc ▸ l.chunkSize_pos
    have hceil : l.chunkCount = ceilDiv size.toNat c.toNat := by rw [← hsize, ← hc]; rfl
    have htiles : Tiles 0 l.ranges size.toNat := hsize ▸ l.tiles_ranges
    have hsum : (l.ranges.map ByteRange.size).sum = size.toNat := by
      have h := htiles.sum_size
      omega
    have hcount : (Words.count size c).toNat = l.chunkCount := by
      rw [Words.count_toNat hpos, hceil]
    refine ⟨by rw [hceil, ceilDiv_eq_ceil _ hpos], ⟨l.length_ranges, l.ranges_getElem?⟩, htiles,
      fun i r hr hi => by rw [size_eq_of_lt hr hi, hc], hsum, by rw [bytesIn_eq_sum]; exact hsum,
      fun i => chunkRange?_eq_none_iff, fun offset => ⟨fun i => chunkIndexOf?_eq_some_iff, ?_, ?_⟩,
      hcount, ?_, fun i r hr => ?_, fun offset hlt => ?_⟩
    · intro i j hi hj
      rw [← chunkIndexOf?_eq_some_iff, hi, Option.some.injEq] at hj
      exact hj.symm
    · rw [chunkIndexOf?_eq_none_iff, hsize, UInt64.le_iff_toNat_le]
    · rw [UInt64.toNat_toUInt32, hcount]
      exact Nat.mod_eq_of_lt l.chunkCount_lt
    · obtain ⟨-, hstart, hstop⟩ := chunkRange?_eq_some_iff.1 hr
      rw [hc] at hstart hstop
      refine ⟨Words.start_toNat c i, Words.reach_toNat c i, ?_, ?_⟩
      · rw [Words.start_toNat, hstart]
      · rw [UInt64.toNat_min, Words.reach_toNat, hstop, hsize]
    · have hindex := Words.index_toNat hl hlt
      have hin : offset.toNat < l.totalSize := by
        rw [hsize]
        exact UInt64.lt_iff_toNat_lt.1 hlt
      refine ⟨hindex, ?_⟩
      rw [hindex, chunkIndexOf?, if_pos hin, hc]

/-- The largest layout: `2 ^ 32 - 1` chunks of `2 ^ 32 - 1` bytes. Its last chunk ends at the last
position that any layout has. -/
theorem addressing_largest : ∃ l, ofSizes 18446744065119617025 4294967295 = .ok l ∧
    l.chunkCount = 4294967295 ∧ Tiles 0 l.ranges 18446744065119617025 := by
  have h := addressing 18446744065119617025 4294967295
  have hcount : ceilDiv 18446744065119617025 4294967295 = 4294967295 := by decide +kernel
  have hl : ∃ l, ofSizes 18446744065119617025 4294967295 = .ok l :=
    ofSizes_ok_iff.2 ⟨by decide, hcount ▸ by decide⟩
  obtain ⟨l, hl⟩ := hl
  have hs := ofSizes_eq_ok_iff.1 hl
  refine ⟨l, hl, ?_, (h.2 l hl).2.2.1⟩
  unfold chunkCount
  rw [hs.1, hs.2]
  exact hcount

end Layout
end VerifiedCopy
