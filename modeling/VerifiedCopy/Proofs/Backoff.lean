/-
# The delay before a retry

The base is doubled for each retry before this one, up to the maximum. Three guards keep
this in words: a factor that a shift cannot give is the largest word, a product that does
not fit is the largest word, and no delay is longer than the maximum. The first two change
the product only where it is larger than every word (`min_mul_backoffFactor`): a base of 0
gives 0 with any factor. The third hides that change, the maximum being a word. So the delay is
the one of unbounded numbers (`backoffMs_eq`), from which it follows that it never gets shorter
from one retry to the next (`backoffMs_mono`).

The computation in words, guards and all, gives the same (`Words.backoff_toNat`).

Key definitions: `Words.bit?`, `Words.saturatingMul`, `Words.backoff`.
Key theorems: `min_mul_backoffFactor`, `backoffMs_eq`, `Words.backoff_toNat`, `backoff_exact`.
-/
import Mathlib.Algebra.Order.Group.Nat
import VerifiedCopy.Config

namespace VerifiedCopy
namespace TransferConfig

variable {retry later : UInt32} {n : Nat}

theorem toNat_le_maxWord (a : UInt64) : a.toNat ≤ maxWord := Nat.le_pred_of_lt a.toNat_lt

/-! ### The guards -/

theorem backoffFactor_of_lt (h : retry.toNat - 1 < 64) :
    backoffFactor retry = 2 ^ (retry.toNat - 1) := by
  unfold backoffFactor
  rw [if_pos h, Nat.one_shiftLeft]

theorem backoffFactor_of_ge (h : 64 ≤ retry.toNat - 1) : backoffFactor retry = maxWord :=
  if_neg (Nat.not_lt.2 h)

theorem maxWord_le_two_pow (h : 64 ≤ n) : maxWord ≤ 2 ^ n :=
  calc maxWord ≤ 2 ^ 64 := by decide
    _ ≤ 2 ^ n := Nat.pow_le_pow_right (by decide) h

/-- The product with the factor that there is differs from the one with the power of two only
above the largest word. -/
theorem min_mul_backoffFactor (base : Nat) (retry : UInt32) :
    min (base * backoffFactor retry) maxWord = min (base * 2 ^ (retry.toNat - 1)) maxWord := by
  rcases Nat.lt_or_ge (retry.toNat - 1) 64 with hlt | hge
  · rw [backoffFactor_of_lt hlt]
  · rw [backoffFactor_of_ge hge]
    rcases Nat.eq_zero_or_pos base with rfl | hpos
    · rw [Nat.zero_mul, Nat.zero_mul]
    · -- With a base of at least 1 neither product is below the largest word.
      have hguarded : maxWord ≤ base * maxWord := Nat.le_mul_of_pos_left _ hpos
      have hexact : maxWord ≤ base * 2 ^ (retry.toNat - 1) :=
        Nat.le_trans (maxWord_le_two_pow hge) (Nat.le_mul_of_pos_left _ hpos)
      rw [Nat.min_eq_right hguarded, Nat.min_eq_right hexact]

/-! ### The delay -/

/-- The maximum is a word, so that nothing is seen of what is above the largest one. -/
theorem backoffMs_eq (c : TransferConfig) (retry : UInt32) : c.backoffMs retry =
    min (c.backoffBaseMs.toNat * 2 ^ (retry.toNat - 1)) c.backoffMaxMs.toNat := by
  unfold backoffMs
  rw [min_mul_backoffFactor, Nat.min_assoc, Nat.min_eq_right (toNat_le_maxWord _)]

theorem backoffMs_le (c : TransferConfig) (retry : UInt32) :
    c.backoffMs retry ≤ c.backoffMaxMs.toNat :=
  Nat.min_le_right _ _

/-- Later retries do not come sooner. -/
theorem backoffMs_mono (c : TransferConfig) (h : retry ≤ later) :
    c.backoffMs retry ≤ c.backoffMs later := by
  have hexp : retry.toNat - 1 ≤ later.toNat - 1 :=
    Nat.sub_le_sub_right (UInt32.le_iff_toNat_le.1 h) 1
  rw [backoffMs_eq, backoffMs_eq]
  exact min_le_min_right _ (Nat.mul_le_mul_left _ (Nat.pow_le_pow_right (by decide) hexp))

/-! ### The delay in words -/

namespace Words

/-- The largest word. -/
def largest : UInt64 := 18446744073709551615

/-- One less, unless there is nothing left to take it from. -/
def pred (n : UInt32) : UInt32 := if n = 0 then 0 else n - 1

/-- The word with bit `n` set, if there is such a bit: a shift takes its amount modulo 64. -/
def bit? (n : UInt32) : Option UInt64 := if n < 64 then some (1 <<< n.toUInt64) else none

/-- `a * b`, or the largest word if that does not fit. -/
def saturatingMul (a b : UInt64) : UInt64 := if a = 0 ∨ b ≤ largest / a then a * b else largest

/-- The delay before a retry. -/
def backoff (base cap : UInt64) (retry : UInt32) : UInt64 :=
  min (saturatingMul base ((bit? (pred retry)).getD largest)) cap

theorem pred_toNat (n : UInt32) : (pred n).toNat = n.toNat - 1 := by
  unfold pred
  split
  · rename_i hzero
    rw [hzero]
    rfl
  · rename_i hne
    have hpos : n.toNat ≠ 0 := fun h => hne (UInt32.toNat_inj.1 h)
    have hone : 1 ≤ n := UInt32.le_iff_toNat_le.2 (Nat.pos_of_ne_zero hpos)
    exact UInt32.toNat_sub_of_le _ _ hone

theorem bit?_getD_toNat (n : UInt32) :
    ((bit? n).getD largest).toNat = if n.toNat < 64 then 2 ^ n.toNat else maxWord := by
  unfold bit?
  by_cases h : n < 64
  · have hlt : n.toNat < 64 := UInt32.lt_iff_toNat_lt.1 h
    rw [if_pos h, if_pos hlt, Option.getD_some, UInt64.toNat_shiftLeft, UInt32.toNat_toUInt64,
      Nat.mod_eq_of_lt hlt, UInt64.toNat_one, Nat.one_shiftLeft]
    exact Nat.mod_eq_of_lt (Nat.pow_lt_pow_right (by decide) hlt)
  · have hge : ¬ n.toNat < 64 := fun hlt => h (UInt32.lt_iff_toNat_lt.2 hlt)
    rw [if_neg h, if_neg hge]
    rfl

theorem factor_toNat (retry : UInt32) :
    ((bit? (pred retry)).getD largest).toNat = backoffFactor retry := by
  rw [bit?_getD_toNat, pred_toNat]
  unfold backoffFactor
  rw [Nat.one_shiftLeft]

/-- The product fits exactly if dividing the largest word says so. -/
theorem saturatingMul_toNat (a b : UInt64) :
    (saturatingMul a b).toNat = min (a.toNat * b.toNat) maxWord := by
  unfold saturatingMul
  rcases Nat.eq_zero_or_pos a.toNat with hzero | hpos
  · rw [if_pos (.inl (UInt64.toNat_inj.1 hzero)), UInt64.toNat_mul, hzero, Nat.zero_mul]
    rfl
  · have hne : a ≠ 0 := fun h => by
      rw [h] at hpos
      exact Nat.lt_irrefl 0 hpos
    have hfits : b ≤ largest / a ↔ a.toNat * b.toNat ≤ maxWord := by
      rw [UInt64.le_iff_toNat_le, UInt64.toNat_div, Nat.le_div_iff_mul_le hpos, Nat.mul_comm]
      rfl
    by_cases h : a.toNat * b.toNat ≤ maxWord
    · rw [if_pos (.inr (hfits.2 h)), UInt64.toNat_mul, Nat.min_eq_left h]
      exact Nat.mod_eq_of_lt (Nat.lt_of_le_of_lt h (by decide))
    · rw [if_neg (not_or.2 ⟨hne, fun hle => h (hfits.1 hle)⟩),
        Nat.min_eq_right (Nat.le_of_not_le h)]
      rfl

theorem backoff_toNat (c : TransferConfig) (retry : UInt32) :
    (backoff c.backoffBaseMs c.backoffMaxMs retry).toNat = c.backoffMs retry := by
  unfold backoff backoffMs
  rw [UInt64.toNat_min, saturatingMul_toNat, factor_toNat]

end Words

/-- **The delay is exact.** For every base, every maximum and every number of a retry, 0 included,
the delay in milliseconds is the base times a power of two, or the maximum if that is less, as
worked out in numbers without a bound; in words it is the same. So for every config it never gets
shorter with the number of the retry and never longer than the maximum. -/
theorem backoff_exact (c : TransferConfig) (retry : UInt32) :
    c.backoffMs retry =
      min (c.backoffBaseMs.toNat * 2 ^ (max retry.toNat 1 - 1)) c.backoffMaxMs.toNat ∧
    (Words.backoff c.backoffBaseMs c.backoffMaxMs retry).toNat = c.backoffMs retry ∧
    (∀ later, retry ≤ later → c.backoffMs retry ≤ c.backoffMs later) ∧
    c.backoffMs retry ≤ c.backoffMaxMs.toNat := by
  have hexp : max retry.toNat 1 - 1 = retry.toNat - 1 := by omega
  rw [hexp]
  exact ⟨c.backoffMs_eq retry, Words.backoff_toNat c retry, fun _ => c.backoffMs_mono,
    c.backoffMs_le retry⟩

/-- With base 1 and no maximum below the largest word: the last delay that is a power of two, and
the next one, whose shift is as wide as a word and whose product does not fit. -/
theorem backoff_exact_past_the_width : ∃ c : TransferConfig,
    c.backoffBaseMs = 1 ∧ c.backoffMaxMs = 18446744073709551615 ∧
      c.backoffMs 64 = 2 ^ 63 ∧ (64 : UInt32) ≤ 65 ∧ c.backoffMs 64 ≤ c.backoffMs 65 ∧
      c.backoffMs 65 = 2 ^ 64 - 1 := by
  let c : TransferConfig := { backoffBaseMs := 1, backoffMaxMs := 18446744073709551615 }
  obtain ⟨hlast, -, hmono, -⟩ := backoff_exact c 64
  obtain ⟨hnext, -⟩ := backoff_exact c 65
  exact ⟨c, rfl, rfl, hlast.trans (by decide), by decide, hmono 65 (by decide),
    hnext.trans (by decide)⟩

end TransferConfig
end VerifiedCopy
