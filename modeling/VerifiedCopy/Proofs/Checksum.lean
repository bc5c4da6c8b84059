/-
# What the checksum detects

The register of the division is moved by a linear map (`step_xor`) that loses
nothing (`step_injective`), because the highest bit of the polynomial marks the
steps in which a one fell out. Two things follow. Registers that differ go on to
differ, whatever is read (`run_injective`). And up to four bytes only add their
value to the register before it is moved on (`run_word`), so different bytes of
this number lead to different registers.

A body and its checksum, read on, always leave the same register behind
(`run_append_trailer`), so the trailer is part of the code word, and damage may
lie across its edge: two strings that carry their checksums and differ in a window
of four bytes only are the same (`eq_of_differWithin`).

Key definitions: `word`, `residue`, `Bytes.DifferWithin`.
Key theorems: `run_injective`, `run_word`, `run_append_trailer`,
`eq_of_differWithin`.
-/
import VerifiedCopy.Checksum
import VerifiedCopy.Proofs.Bytes

namespace VerifiedCopy

/-! ### Windows -/

namespace Bytes

/-- Two strings have the same length, and the same bytes outside some window of
`n` bytes. -/
def DifferWithin (n : Nat) (b b' : Bytes) : Prop :=
  b.length = b'.length ∧ ∃ k, ∀ i, b[i]? ≠ b'[i]? → k ≤ i ∧ i < k + n

/-- The common part before the window, the window in both, and the common part
behind it. -/
theorem DifferWithin.split {n : Nat} {b b' : Bytes} (h : DifferWithin n b b') :
    ∃ front w w' back : Bytes, b = front ++ w ++ back ∧ b' = front ++ w' ++ back ∧
      w.length = w'.length ∧ w.length ≤ n := by
  obtain ⟨hlen, k, hk⟩ := h
  have hsame : ∀ i, i < k ∨ k + n ≤ i → b[i]? = b'[i]? := by
    intro i hi
    refine Classical.byContradiction fun hne => ?_
    have hin := hk i hne
    omega
  have hfront : b.take k = b'.take k := by
    apply List.ext_getElem?
    intro i
    rw [List.getElem?_take, List.getElem?_take]
    by_cases hi : i < k
    · rw [if_pos hi, if_pos hi, hsame i (.inl hi)]
    · rw [if_neg hi, if_neg hi]
  have hback : (b.drop k).drop n = (b'.drop k).drop n := by
    apply List.ext_getElem?
    intro i
    rw [List.getElem?_drop, List.getElem?_drop, List.getElem?_drop, List.getElem?_drop]
    exact hsame _ (.inr (by omega))
  refine ⟨b.take k, (b.drop k).take n, (b'.drop k).take n, (b.drop k).drop n, ?_, ?_, ?_, ?_⟩
  · rw [List.append_assoc, List.take_append_drop, List.take_append_drop]
  · rw [hfront, hback, List.append_assoc, List.take_append_drop, List.take_append_drop]
  · simp [hlen]
  · rw [List.length_take]
    exact Nat.min_le_left _ _

end Bytes

namespace Checksum

/-! ### The register -/

/-- The division is linear over exclusive or. -/
theorem step_xor (r s : BitVec 32) : step (r ^^^ s) = step r ^^^ step s := by
  have hcancel : ∀ a b : BitVec 32, a ^^^ polynomial ^^^ (b ^^^ polynomial) = a ^^^ b := by
    intro a b
    calc a ^^^ polynomial ^^^ (b ^^^ polynomial)
        = a ^^^ b ^^^ (polynomial ^^^ polynomial) := by ac_rfl
      _ = a ^^^ b := by rw [BitVec.xor_self, BitVec.xor_zero]
  unfold step
  rw [BitVec.getLsbD_xor, BitVec.ushiftRight_xor_distrib]
  cases hr : r.getLsbD 0 <;> cases hs : s.getLsbD 0
  · simp
  · simp [BitVec.xor_assoc]
  · simp; ac_rfl
  · simp [hcancel]

/-- A step that leaves nothing began with nothing: a one that falls out shows in
the highest bit. -/
theorem eq_zero_of_step {r : BitVec 32} (h : step r = 0#32) : r = 0#32 := by
  have hbit : ∀ i, (step r).getLsbD i = false := by
    intro i
    rw [h, BitVec.getLsbD_zero]
  unfold step at hbit
  cases hr : r.getLsbD 0 with
  | true =>
    have htop := hbit 31
    have hpoly : polynomial.getLsbD 31 = true := by decide
    rw [hr, if_pos rfl, BitVec.getLsbD_xor, BitVec.getLsbD_ushiftRight, hpoly] at htop
    simp at htop
  | false =>
    rw [hr] at hbit
    apply BitVec.eq_of_getLsbD_eq
    intro i hi
    rw [BitVec.getLsbD_zero]
    cases i with
    | zero => exact hr
    | succ i =>
      have hi' := hbit i
      rw [if_neg Bool.false_ne_true, BitVec.getLsbD_ushiftRight, Nat.add_comm] at hi'
      exact hi'

theorem step_injective {r s : BitVec 32} (h : step r = step s) : r = s := by
  have hzero : step (r ^^^ s) = 0#32 := by rw [step_xor, h, BitVec.xor_self]
  exact BitVec.xor_eq_zero_iff.1 (eq_zero_of_step hzero)

theorem steps_xor (n : Nat) (r s : BitVec 32) : steps n (r ^^^ s) = steps n r ^^^ steps n s := by
  induction n generalizing r s with
  | zero => rfl
  | succ n ih => rw [steps, step_xor, ih, steps, steps]

theorem steps_injective {n : Nat} {r s : BitVec 32} (h : steps n r = steps n s) : r = s := by
  induction n generalizing r s with
  | zero => exact h
  | succ n ih => exact step_injective (ih h)

theorem steps_add (m n : Nat) (r : BitVec 32) : steps (m + n) r = steps n (steps m r) := by
  induction m generalizing r with
  | zero => rw [Nat.zero_add, steps]
  | succ m ih => rw [Nat.succ_add, steps, ih, steps]

/-- While zeros fall out, the register only moves down. -/
theorem steps_of_low_zeros : ∀ (n : Nat) (r : BitVec 32), (∀ i, i < n → r.getLsbD i = false) →
    steps n r = r >>> n
  | 0, r, _ => by rw [steps, BitVec.ushiftRight_zero]
  | n + 1, r, h => by
    have hstep : step r = r >>> 1 := by
      unfold step
      rw [h 0 (by omega), if_neg Bool.false_ne_true]
    have hlow : ∀ i, i < n → (r >>> 1).getLsbD i = false := by
      intro i hi
      rw [BitVec.getLsbD_ushiftRight]
      exact h (1 + i) (by omega)
    rw [steps, hstep, steps_of_low_zeros n _ hlow, ← BitVec.shiftRight_add, Nat.add_comm]

/-! ### Bytes -/

theorem absorb_injective {r s : BitVec 32} {b : UInt8} (h : absorb r b = absorb s b) : r = s := by
  have hxor := steps_injective h
  calc r = r ^^^ b.toBitVec.setWidth 32 ^^^ b.toBitVec.setWidth 32 := by
        rw [BitVec.xor_assoc, BitVec.xor_self, BitVec.xor_zero]
    _ = s ^^^ b.toBitVec.setWidth 32 ^^^ b.toBitVec.setWidth 32 := by rw [hxor]
    _ = s := by rw [BitVec.xor_assoc, BitVec.xor_self, BitVec.xor_zero]

/-- Registers that differ still differ after the same bytes. -/
theorem run_injective {b : Bytes} {r s : BitVec 32} (h : run r b = run s b) : r = s := by
  induction b generalizing r s with
  | nil => exact h
  | cons x xs ih => exact absorb_injective (ih h)

/-- Up to four bytes as the number that the register takes them for. -/
def word (b : Bytes) : BitVec 32 := BitVec.ofNat 32 (Bytes.toNatLE b)

/-- The first byte is the low one. -/
theorem testBit_toNatLE_cons (x : UInt8) (xs : Bytes) (i : Nat) :
    (Bytes.toNatLE (x :: xs)).testBit i =
      if i < 8 then x.toNat.testBit i else (Bytes.toNatLE xs).testBit (i - 8) := by
  have hbit := Nat.testBit_two_pow_mul_add (Bytes.toNatLE xs) x.toNat_lt i
  rw [← hbit, Bytes.toNatLE]
  congr 1
  omega

theorem word_cons (x : UInt8) (xs : Bytes) :
    word (x :: xs) = x.toBitVec.setWidth 32 ^^^ word xs <<< 8 := by
  apply BitVec.eq_of_getLsbD_eq
  intro i hi
  unfold word
  rw [BitVec.getLsbD_xor, BitVec.getLsbD_shiftLeft, BitVec.getLsbD_setWidth,
    BitVec.getLsbD_ofNat, BitVec.getLsbD_ofNat, testBit_toNatLE_cons]
  have hx : x.toBitVec.getLsbD i = x.toNat.testBit i := rfl
  rw [hx]
  by_cases h : i < 8
  · simp [h, hi]
  · have hhigh : x.toNat.testBit i = false := by
      refine Nat.testBit_lt_two_pow (Nat.lt_of_lt_of_le x.toNat_lt ?_)
      exact Nat.pow_le_pow_right (by decide) (Nat.le_of_not_lt h)
    simp [h, hi, hhigh]
    omega

/-- Up to three bytes that stand above an empty low byte are moved down by its
steps. -/
theorem steps_word_shiftLeft {b : Bytes} (h : b.length ≤ 3) :
    steps 8 (word b <<< 8) = word b := by
  have hlow : ∀ i, i < 8 → (word b <<< 8).getLsbD i = false := by
    intro i hi
    rw [BitVec.getLsbD_shiftLeft]
    simp [hi]
  have hsmall : Bytes.toNatLE b < 16777216 :=
    Nat.lt_of_lt_of_le (Bytes.toNatLE_lt b) (Nat.pow_le_pow_right (by decide) h)
  rw [steps_of_low_zeros 8 _ hlow]
  apply BitVec.eq_of_toNat_eq
  unfold word
  simp only [BitVec.toNat_ushiftRight, BitVec.toNat_shiftLeft, BitVec.toNat_ofNat,
    Nat.shiftLeft_eq, Nat.shiftRight_eq_div_pow]
  omega

/-- Up to four bytes only add their value to the register before it is moved on. -/
theorem run_word : ∀ (b : Bytes) (r : BitVec 32), b.length ≤ 4 →
    run r b = steps (8 * b.length) (r ^^^ word b)
  | [], r, _ => by
    have hword : word [] = 0#32 := rfl
    rw [hword, BitVec.xor_zero]
    rfl
  | x :: xs, r, h => by
    rw [List.length_cons] at h
    calc run r (x :: xs)
        = run (steps 8 (r ^^^ x.toBitVec.setWidth 32)) xs := rfl
      _ = steps (8 * xs.length) (steps 8 (r ^^^ x.toBitVec.setWidth 32) ^^^ word xs) :=
        run_word xs _ (by omega)
      _ = steps (8 * xs.length) (steps 8 (r ^^^ x.toBitVec.setWidth 32 ^^^ word xs <<< 8)) := by
        rw [steps_xor 8 _ (word xs <<< 8), steps_word_shiftLeft (by omega)]
      _ = steps (8 * (x :: xs).length) (r ^^^ word (x :: xs)) := by
        rw [← steps_add, word_cons, BitVec.xor_assoc, List.length_cons, Nat.mul_succ,
          Nat.add_comm 8]

theorem word_injective {b c : Bytes} (hlen : b.length = c.length) (h4 : b.length ≤ 4)
    (h : word b = word c) : b = c := by
  have hsize : Nat.pow 256 b.length ≤ 4294967296 := Nat.pow_le_pow_right (by decide) h4
  have hb := Bytes.toNatLE_lt b
  have hc := Bytes.toNatLE_lt c
  rw [← hlen] at hc
  have hnat : Bytes.toNatLE b = Bytes.toNatLE c := by
    have hto := congrArg BitVec.toNat h
    unfold word at hto
    rw [BitVec.toNat_ofNat, BitVec.toNat_ofNat] at hto
    omega
  rw [← Bytes.ofNatLE_toNatLE b, ← Bytes.ofNatLE_toNatLE c, hlen, hnat]

/-- Up to four bytes can be told by the register that they lead to. -/
theorem eq_of_run_eq {b c : Bytes} {r : BitVec 32} (hlen : b.length = c.length)
    (h4 : b.length ≤ 4) (h : run r b = run r c) : b = c := by
  rw [run_word b r h4, run_word c r (by omega), ← hlen] at h
  exact word_injective hlen h4 ((BitVec.xor_right_inj r).1 (steps_injective h))

/-! ### Code words -/

/-- The register that every body leaves behind with its checksum. -/
def residue : BitVec 32 := steps 32 initial

/-- The trailer continues the division of its body: what is left is the same for
every body. -/
theorem run_append_trailer (b : Bytes) : run initial (b ++ trailer b) = residue := by
  have hword : word (trailer b) = crc32 b := by
    unfold word trailer
    rw [Bytes.toNatLE_ofNatLE 4 _ (crc32 b).isLt]
    rw [BitVec.ofNat_toNat, BitVec.setWidth_eq]
  calc run initial (b ++ trailer b)
      = run (run initial b) (trailer b) := run_append _ _ _
    _ = steps 32 (run initial b ^^^ crc32 b) := by
      rw [run_word _ _ (Nat.le_of_eq (length_trailer b)), hword, length_trailer]
    _ = residue := by
      unfold residue crc32
      rw [← BitVec.xor_assoc, BitVec.xor_self, BitVec.zero_xor]

/-- Strings that leave the same register behind and differ within four bytes are
the same. -/
theorem eq_of_differWithin {b b' : Bytes} {r : BitVec 32} (h : b.DifferWithin 4 b')
    (hrun : run r b = run r b') : b = b' := by
  obtain ⟨front, w, w', back, rfl, rfl, hlen, h4⟩ := h.split
  have hwindow : run (run r front) w = run (run r front) w' := by
    rw [run_append, run_append, run_append, run_append] at hrun
    exact run_injective hrun
  rw [eq_of_run_eq hlen h4 hwindow]

end Checksum
end VerifiedCopy
