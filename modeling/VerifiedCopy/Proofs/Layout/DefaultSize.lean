/-
# The default chunk size is the best one

The default size is a power of two from 64 to 64 MiB. Up to 1 MiB it is the least one that
holds the content in one chunk (but 64 for the smallest), and from there on the least one
that is at least 1 MiB and needs no more than 4096 chunks, or 64 MiB if that is not enough.

The loop behind the last part starts at 1 MiB and doubles. What it passes is too small, and
where it stops before 64 MiB the number of chunks is small enough
(`exists_doubleWhileMany`); from this alone follow that the size is the least one
(`isLeast_of_large`) and that more content never gets smaller chunks (`defaultChunkSize_mono`).
In words of 64 bits the loop does the same (`Layout.Words.iterate_widen`).

Key definitions: `PowerOfTwo`, `Fitting`, `Layout.Words.widen`.
Key theorems: `isLeast_capacityFor`, `exists_doubleWhileMany`, `default_size_optimal`.
-/
import Mathlib.Logic.Function.Iterate
import Mathlib.Order.Bounds.Basic
import VerifiedCopy.Proofs.Layout.Tiling

namespace VerifiedCopy

variable {total total' a b c : Nat}

/-! ### Rounding up -/

theorem ceilDiv_mono (h : a ≤ b) (c : Nat) : ceilDiv a c ≤ ceilDiv b c :=
  Nat.div_le_div_right (by omega)

/-- Larger pieces are fewer. -/
theorem ceilDiv_anti (hb : 0 < b) (h : b ≤ c) : ceilDiv a c ≤ ceilDiv a b := by
  rw [ceilDiv_le_iff (Nat.lt_of_lt_of_le hb h)]
  have hall : a ≤ ceilDiv a b * b := (ceilDiv_le_iff hb).1 (Nat.le_refl _)
  exact Nat.le_trans hall (Nat.mul_le_mul_left _ h)

theorem ceilDiv_le_self (hb : 0 < b) : ceilDiv a b ≤ a :=
  (ceilDiv_le_iff hb).2 (Nat.le_mul_of_pos_right a hb)

/-! ### Powers of two -/

/-- `c` is `2 ^ k` for some `k`. -/
def PowerOfTwo (c : Nat) : Prop := ∃ k, c = 2 ^ k

theorem powerOfTwo_capacityFor (n : Nat) : PowerOfTwo (capacityFor n) := ⟨depthFor n, rfl⟩

theorem isLeast_capacityFor (n : Nat) : IsLeast {c | PowerOfTwo c ∧ n ≤ c} (capacityFor n) := by
  refine ⟨⟨powerOfTwo_capacityFor n, le_capacityFor n⟩, ?_⟩
  rintro c ⟨⟨k, rfl⟩, hle⟩
  exact capacityFor_le hle

/-! ### The loop -/

/-- The loop stops at a power of two. Before it all are too small, and if it had turns left there
are at most 4096 chunks. -/
theorem exists_doubleWhileMany (total : Nat) : ∀ n k, ∃ j,
    doubleWhileMany total n (2 ^ k) = 2 ^ j ∧ k ≤ j ∧ j ≤ k + n ∧
      (∀ i, k ≤ i → i < j → 4096 < ceilDiv total (2 ^ i)) ∧
      (j < k + n → ceilDiv total (2 ^ j) ≤ 4096)
  | 0, k => ⟨k, rfl, by omega, by omega, by omega, by omega⟩
  | n + 1, k => by
    by_cases hmany : 4096 < ceilDiv total (2 ^ k)
    · obtain ⟨j, hj, hkj, hjn, hbefore, hstop⟩ := exists_doubleWhileMany total n (k + 1)
      refine ⟨j, ?_, by omega, by omega, fun i hki hij => ?_, fun h => hstop (by omega)⟩
      · rw [doubleWhileMany, if_pos hmany, ← hj, pow_succ']
      · rcases Nat.eq_or_lt_of_le hki with rfl | hlt
        · exact hmany
        · exact hbefore i hlt hij
    · exact ⟨k, by rw [doubleWhileMany, if_neg hmany], by omega, by omega, by omega,
        fun _ => Nat.not_lt.1 hmany⟩

/-! ### The three ranges of content -/

theorem mebibyte_eq : mebibyte = 2 ^ 20 := rfl

theorem defaultChunkSize_of_small (h : 1 ≤ total) (hlt : total < 1024) :
    defaultChunkSize total = 64 := by
  unfold defaultChunkSize
  rw [if_neg (by omega), if_pos hlt]

theorem defaultChunkSize_of_medium (h : 1024 ≤ total) (hlt : total < 2 ^ 20) :
    defaultChunkSize total = capacityFor total := by
  unfold defaultChunkSize
  rw [if_neg (by omega), if_neg (by omega), mebibyte_eq, if_pos hlt]

theorem defaultChunkSize_of_large (h : 2 ^ 20 ≤ total) :
    defaultChunkSize total = doubleWhileMany total 6 (2 ^ 20) := by
  unfold defaultChunkSize
  rw [if_neg (by omega), if_neg (by omega), mebibyte_eq, if_neg (Nat.not_lt.2 h)]

/-- Where the loop stops. -/
theorem exists_of_large (h : 2 ^ 20 ≤ total) : ∃ j,
    defaultChunkSize total = 2 ^ j ∧ 20 ≤ j ∧ j ≤ 26 ∧
      (∀ i, 20 ≤ i → i < j → 4096 < ceilDiv total (2 ^ i)) ∧
      (j < 26 → ceilDiv total (2 ^ j) ≤ 4096) := by
  rw [defaultChunkSize_of_large h]
  exact exists_doubleWhileMany total 6 20

theorem size_cases (total : Nat) : total = 0 ∨ (1 ≤ total ∧ total < 1024) ∨
    (1024 ≤ total ∧ total < 2 ^ 20) ∨ 2 ^ 20 ≤ total := by
  omega

/-- The default size is a power of two from 64 to 64 MiB. -/
theorem exists_exponent (total : Nat) : ∃ k, 6 ≤ k ∧ k ≤ 26 ∧ defaultChunkSize total = 2 ^ k := by
  rcases size_cases total with rfl | ⟨h, hlt⟩ | ⟨h, hlt⟩ | h
  · exact ⟨20, by omega, by omega, rfl⟩
  · exact ⟨6, by omega, by omega, defaultChunkSize_of_small h hlt⟩
  · have hlow : 2 ^ 6 ≤ capacityFor total := by
      have hle := le_capacityFor total
      omega
    have hhigh : capacityFor total ≤ 2 ^ 20 := capacityFor_le (Nat.le_of_lt hlt)
    obtain ⟨k, hk⟩ := powerOfTwo_capacityFor total
    rw [hk] at hlow hhigh
    have hk6 := (Nat.pow_le_pow_iff_right (by decide)).1 hlow
    have hk20 := (Nat.pow_le_pow_iff_right (by decide)).1 hhigh
    exact ⟨k, hk6, by omega, (defaultChunkSize_of_medium h hlt).trans hk⟩
  · obtain ⟨j, hj, hlow, hhigh, -⟩ := exists_of_large h
    exact ⟨j, by omega, hhigh, hj⟩

theorem le_defaultChunkSize (total : Nat) : 2 ^ 6 ≤ defaultChunkSize total := by
  obtain ⟨k, hk, -, heq⟩ := exists_exponent total
  rw [heq]
  exact Nat.pow_le_pow_right (by decide) hk

theorem defaultChunkSize_le (total : Nat) : defaultChunkSize total ≤ 2 ^ 26 := by
  obtain ⟨k, -, hk, heq⟩ := exists_exponent total
  rw [heq]
  exact Nat.pow_le_pow_right (by decide) hk

/-! ### Large content -/

/-- The powers of two from 1 MiB to 64 MiB that need at most 4096 chunks. -/
def Fitting (total : Nat) : Set Nat :=
  {c | PowerOfTwo c ∧ 2 ^ 20 ≤ c ∧ c ≤ 2 ^ 26 ∧ ⌈(total : ℚ) / c⌉₊ ≤ 4096}

theorem pow_mem_fitting_iff {i : Nat} : 2 ^ i ∈ Fitting total ↔
    20 ≤ i ∧ i ≤ 26 ∧ ceilDiv total (2 ^ i) ≤ 4096 := by
  have hceil := ceilDiv_eq_ceil total (Nat.two_pow_pos i)
  unfold Fitting
  rw [Set.mem_ofPred_eq, ← hceil, Nat.pow_le_pow_iff_right (by decide),
    Nat.pow_le_pow_iff_right (by decide)]
  exact and_iff_right ⟨i, rfl⟩

/-- For large content the default size is the least that fits, or the largest at all. -/
theorem isLeast_of_large (h : 2 ^ 20 ≤ total) :
    IsLeast (Fitting total) (defaultChunkSize total) ∨
      Fitting total = ∅ ∧ defaultChunkSize total = 2 ^ 26 := by
  obtain ⟨j, hj, hlow, hhigh, hbefore, hstop⟩ := exists_of_large h
  -- What fits is not below `j`, where there were too many chunks.
  have hleast : ∀ i, 2 ^ i ∈ Fitting total → j ≤ i := by
    intro i hi
    obtain ⟨hi20, -, hfew⟩ := pow_mem_fitting_iff.1 hi
    exact Nat.le_of_not_lt fun hij => absurd (hbefore i hi20 hij) (Nat.not_lt.2 hfew)
  rw [hj]
  by_cases hfew : ceilDiv total (2 ^ j) ≤ 4096
  · refine .inl ⟨pow_mem_fitting_iff.2 ⟨hlow, hhigh, hfew⟩, ?_⟩
    intro c hc
    obtain ⟨i, rfl⟩ := hc.1
    exact Nat.pow_le_pow_right (by decide) (hleast i hc)
  · obtain rfl : j = 26 := by
      by_contra hne
      exact hfew (hstop (by omega))
    refine .inr ⟨Set.eq_empty_iff_forall_notMem.2 fun c hc => hfew ?_, rfl⟩
    obtain ⟨i, rfl⟩ := hc.1
    obtain ⟨-, hi26, hfits⟩ := pow_mem_fitting_iff.1 hc
    rwa [Nat.le_antisymm hi26 (hleast i hc)] at hfits

/-! ### More content never has smaller chunks -/

theorem defaultChunkSize_mono_large (h : 2 ^ 20 ≤ total) (hle : total ≤ total') :
    defaultChunkSize total ≤ defaultChunkSize total' := by
  obtain ⟨j, hj, -, hj26, hbefore, -⟩ := exists_of_large h
  obtain ⟨j', hj', hj20, -, -, hstop⟩ := exists_of_large (Nat.le_trans h hle)
  rw [hj, hj']
  refine Nat.pow_le_pow_right (by decide) (Nat.le_of_not_lt fun hlt => ?_)
  -- Sizes that are too small for less content are too small for more.
  have hmany := hbefore j' hj20 hlt
  have hfew := hstop (by omega)
  have hmono := ceilDiv_mono hle (2 ^ j')
  omega

theorem defaultChunkSize_mono (h : 1 ≤ total) (hle : total ≤ total') :
    defaultChunkSize total ≤ defaultChunkSize total' := by
  rcases size_cases total with rfl | ⟨-, hlt⟩ | ⟨h1024, hlt⟩ | hlarge
  · omega
  · rw [defaultChunkSize_of_small h hlt]
    exact le_defaultChunkSize total'
  · rw [defaultChunkSize_of_medium h1024 hlt]
    have hleast := (isLeast_capacityFor total).2
    rcases Nat.lt_or_ge total' (2 ^ 20) with hlt' | hge'
    · rw [defaultChunkSize_of_medium (by omega) hlt']
      exact hleast ⟨powerOfTwo_capacityFor total', Nat.le_trans hle (le_capacityFor total')⟩
    · obtain ⟨j, hj, h20, -⟩ := exists_of_large hge'
      rw [hj]
      have hroom : 2 ^ 20 ≤ 2 ^ j := Nat.pow_le_pow_right (by decide) h20
      exact hleast ⟨⟨j, rfl⟩, by omega⟩
  · exact defaultChunkSize_mono_large hlarge hle

/-! ### Layouts with the default size -/

namespace Layout

theorem defaultChunkSize_toNat (total : Nat) :
    (UInt32.ofNat (defaultChunkSize total)).toNat = defaultChunkSize total := by
  have hle := defaultChunkSize_le total
  have hfits : 2 ^ 26 < UInt32.size := by decide
  exact UInt32.toNat_ofNat_of_lt' (by omega)

/-- Only the largest size can leave too many chunks. -/
theorem few_or_largest (total : Nat) :
    ceilDiv total (defaultChunkSize total) ≤ 2 ^ 20 ∨ defaultChunkSize total = 2 ^ 26 := by
  rcases Nat.lt_or_ge total (2 ^ 20) with hlt | hge
  · have hpos := le_defaultChunkSize total
    have hle := ceilDiv_le_self (a := total) (b := defaultChunkSize total) (by omega)
    exact .inl (by omega)
  · obtain ⟨j, hj, -, hj26, -, hstop⟩ := exists_of_large hge
    rcases Nat.lt_or_eq_of_le hj26 with hlt | rfl
    · have hfew := hstop hlt
      rw [← hj] at hfew
      exact .inl (by omega)
    · exact .inr hj

/-- There is a layout with the default size if there is one with the largest. -/
theorem exists_ofTotalSize_iff :
    (∃ l, ofTotalSize total = .ok l) ↔ ceilDiv total (2 ^ 26) < UInt32.size := by
  have hpos := le_defaultChunkSize total
  unfold ofTotalSize
  rw [ofSizes_ok_iff, defaultChunkSize_toNat]
  constructor
  · rintro ⟨hpos, hlt⟩
    exact Nat.lt_of_le_of_lt (ceilDiv_anti hpos (defaultChunkSize_le total)) hlt
  · intro hlt
    refine ⟨by omega, ?_⟩
    rcases few_or_largest total with hfew | hlargest
    · have hfits : 2 ^ 20 < UInt32.size := by decide
      omega
    · rw [hlargest]
      exact hlt

/-! ### The loop in words -/

namespace Words

/-- One turn of the loop, in words that wrap around: the size is doubled while it is below 64 MiB
and there are too many chunks. -/
def widen (total chunk : UInt64) : UInt64 :=
  if chunk < 67108864 ∧ 4096 < ceil total chunk then chunk * 2 else chunk

variable {total chunk : UInt64}

theorem widens_iff {k : Nat} (hchunk : chunk.toNat = 2 ^ k) :
    (chunk < 67108864 ∧ 4096 < ceil total chunk) ↔
      k < 26 ∧ 4096 < ceilDiv total.toNat (2 ^ k) := by
  have hpos : 0 < chunk.toNat := by
    rw [hchunk]
    exact Nat.two_pow_pos k
  have hlimit : (67108864 : UInt64).toNat = 2 ^ 26 := rfl
  rw [UInt64.lt_iff_toNat_lt, UInt64.lt_iff_toNat_lt, ceil_toNat hpos, hchunk, hlimit,
    Nat.pow_lt_pow_iff_right (by decide)]
  rfl

/-- Turns that go on after the loop has ended change nothing, and none of them wraps around. -/
theorem iterate_widen : ∀ (n k m : Nat) (chunk : UInt64), k + n = 26 → n ≤ m →
    chunk.toNat = 2 ^ k →
    ((widen total)^[m] chunk).toNat = doubleWhileMany total.toNat n (2 ^ k)
  | 0, k, m, chunk, hk, _, hchunk => by
    have hend : widen total chunk = chunk := if_neg fun h => by
      have hlt := ((widens_iff hchunk).1 h).1
      omega
    rw [Function.iterate_fixed hend, hchunk, doubleWhileMany]
  | n + 1, k, 0, chunk, _, hm, _ => absurd hm (by omega)
  | n + 1, k, m + 1, chunk, hk, hm, hchunk => by
    by_cases hmany : 4096 < ceilDiv total.toNat (2 ^ k)
    · have hturn : widen total chunk = chunk * 2 :=
        if_pos ((widens_iff hchunk).2 ⟨by omega, hmany⟩)
      have hdouble : (chunk * 2).toNat = 2 ^ (k + 1) := by
        have hle : 2 ^ (k + 1) ≤ 2 ^ 26 := Nat.pow_le_pow_right (by decide) (by omega)
        have htwo : (2 : UInt64).toNat = 2 := rfl
        rw [UInt64.toNat_mul, hchunk, htwo, ← pow_succ]
        exact Nat.mod_eq_of_lt (by omega)
      rw [Function.iterate_succ_apply, hturn,
        iterate_widen n (k + 1) m _ (by omega) (by omega) hdouble, doubleWhileMany, if_pos hmany,
        pow_succ']
    · have hend : widen total chunk = chunk := if_neg fun h => hmany ((widens_iff hchunk).1 h).2
      rw [Function.iterate_fixed hend, hchunk, doubleWhileMany, if_neg hmany]

end Words

/-- **The default chunk size.** For content of any size it is a power of two from 64 to 64 MiB: 64
below 1 KiB, below 1 MiB the least one that is not smaller than the content, and from there on the
least one from 1 MiB to 64 MiB that needs at most 4096 chunks, or 64 MiB if none does. More content
never has smaller chunks, unless there was none before. There is a layout with the default size
exactly if chunks of 64 MiB can be numbered with 32 bits. The loop gives the same in words, however
often it is gone through. -/
theorem default_size_optimal (total : Nat) :
    (PowerOfTwo (defaultChunkSize total) ∧ 64 ≤ defaultChunkSize total ∧
      defaultChunkSize total ≤ 2 ^ 26) ∧
    (1 ≤ total → total < 1024 → defaultChunkSize total = 64) ∧
    (1024 ≤ total → total < 2 ^ 20 →
      IsLeast {c | PowerOfTwo c ∧ total ≤ c} (defaultChunkSize total)) ∧
    (2 ^ 20 ≤ total → IsLeast (Fitting total) (defaultChunkSize total) ∨
      Fitting total = ∅ ∧ defaultChunkSize total = 2 ^ 26) ∧
    (∀ total', 1 ≤ total → total ≤ total' → defaultChunkSize total ≤ defaultChunkSize total') ∧
    ((∃ l, ofTotalSize total = .ok l) ↔ ⌈(total : ℚ) / (2 ^ 26 : Nat)⌉₊ ≤ 2 ^ 32 - 1) ∧
    (∀ l, ofTotalSize total = .ok l →
      l.totalSize = total ∧ l.chunkSize = defaultChunkSize total) ∧
    ∀ word : UInt64, word.toNat = total → 2 ^ 20 ≤ total → ∀ n, 6 ≤ n →
      ((Words.widen word)^[n] 1048576).toUInt32.toNat = defaultChunkSize total := by
  refine ⟨?_, defaultChunkSize_of_small, fun h hlt => ?_, isLeast_of_large,
    fun _ => defaultChunkSize_mono, ?_, fun l hl => ?_, ?_⟩
  · obtain ⟨k, -, -, hk⟩ := exists_exponent total
    exact ⟨⟨k, hk⟩, le_defaultChunkSize total, defaultChunkSize_le total⟩
  · rw [defaultChunkSize_of_medium h hlt]
    exact isLeast_capacityFor total
  · have h32 : UInt32.size = 2 ^ 32 := rfl
    rw [exists_ofTotalSize_iff, ← ceilDiv_eq_ceil _ (Nat.two_pow_pos 26)]
    omega
  · obtain ⟨hsize, hchunk⟩ := ofSizes_eq_ok_iff.1 hl
    exact ⟨hsize, hchunk.trans (defaultChunkSize_toNat total)⟩
  · rintro word rfl hlarge n hn
    have hloop : ((Words.widen word)^[n] 1048576).toNat = doubleWhileMany word.toNat 6 (2 ^ 20) :=
      Words.iterate_widen 6 20 n _ rfl hn rfl
    rw [← defaultChunkSize_of_large hlarge] at hloop
    have hle := defaultChunkSize_le word.toNat
    rw [UInt64.toNat_toUInt32, hloop]
    exact Nat.mod_eq_of_lt (by omega)

/-- At the edges: one byte less than 1 KiB, one byte more, and one byte more than 4096 chunks of
1 MiB hold. -/
theorem default_size_optimal_at_edges :
    defaultChunkSize 1023 = 64 ∧ IsLeast {c | PowerOfTwo c ∧ 1025 ≤ c} 2048 ∧
      IsLeast (Fitting (2 ^ 32 + 1)) (2 ^ 21) ∧ defaultChunkSize 1025 ≤ 2 ^ 21 := by
  obtain ⟨-, hsmall, -⟩ := default_size_optimal 1023
  obtain ⟨-, -, hmedium, -, hmono, -⟩ := default_size_optimal 1025
  obtain ⟨-, -, -, hlarge, -⟩ := default_size_optimal (2 ^ 32 + 1)
  have hover : defaultChunkSize (2 ^ 32 + 1) = 2 ^ 21 := by decide +kernel
  refine ⟨hsmall (by decide) (by decide), hmedium (by decide) (by decide), ?_, ?_⟩
  · rcases hlarge (by decide) with hleast | ⟨-, hmax⟩
    · rw [hover] at hleast
      exact hleast
    · rw [hover] at hmax
      exact absurd hmax (by decide)
  · exact hover ▸ hmono _ (by decide) (by decide)

end Layout
end VerifiedCopy
