/-
# Cutting, laying over and counting bytes

What `slice` and `overlay` do to the byte at one position: a piece laid over some
content is what is then cut out at its place, and changes no byte elsewhere. The
pieces of some content, put together again, are the content, and each of them is
the slice at its place. A number of a fixed width and its bytes determine each
other.

Key theorems: `slice_overlay`, `getElem?_overlay`, `flatten_pieces`,
`getElem?_pieces`, `toNatLE_ofNatLE`, `toNatLE_slice`, `ofNatLE_toNatLE`.
-/
import VerifiedCopy.Bytes
import VerifiedCopy.Proofs.Layout

namespace VerifiedCopy
namespace Bytes

/-! ### Slices -/

theorem getElem?_slice (b : Bytes) (start len k : Nat) :
    (b.slice start len)[k]? = if k < len then b[start + k]? else none := by
  unfold slice
  rw [List.getElem?_take, List.getElem?_drop]

theorem length_slice (b : Bytes) (start len : Nat) :
    (b.slice start len).length = min len (b.length - start) := by
  simp [slice]

@[simp] theorem slice_zero (b : Bytes) (start : Nat) : b.slice start 0 = [] := by
  simp [slice]

/-- A slice finds what stands between two others. -/
theorem slice_append (a x y : Bytes) : (a ++ (x ++ y)).slice a.length x.length = x := by
  unfold slice
  rw [List.drop_left, List.take_left]

/-- Slices are the same if the bytes in their place are. -/
theorem slice_congr {a b : Bytes} {start len : Nat}
    (h : ∀ k, start ≤ k → k < start + len → a[k]? = b[k]?) :
    a.slice start len = b.slice start len := by
  apply List.ext_getElem?
  intro k
  rw [getElem?_slice, getElem?_slice]
  by_cases hk : k < len
  · rw [if_pos hk, if_pos hk]
    exact h (start + k) (by omega) (by omega)
  · rw [if_neg hk, if_neg hk]

/-- What lies inside the first `n` bytes is found there. -/
theorem slice_take (b : Bytes) {start len n : Nat} (h : start + len ≤ n) :
    slice (b.take n) start len = b.slice start len :=
  slice_congr fun _ _ hk => List.getElem?_take_of_lt (Nat.lt_of_lt_of_le hk h)

/-! ### Overlays -/

/-- An overlay changes no byte outside the place of the piece. -/
theorem getElem?_overlay {b piece : Bytes} {offset k : Nat} (hk : k < b.length)
    (h : k < offset ∨ offset + piece.length ≤ k) : (b.overlay offset piece)[k]? = b[k]? := by
  cases piece with
  | nil => rfl
  | cons x xs =>
    have hpad : ((b ++ List.replicate (offset - b.length) 0).take offset).length = offset := by
      simp; omega
    unfold overlay
    rcases h with h | h
    · rw [List.append_assoc, List.getElem?_append_left (by rw [hpad]; exact h),
        List.getElem?_take, if_pos h, List.getElem?_append_left hk]
    · have hlen : ((b ++ List.replicate (offset - b.length) 0).take offset ++ x :: xs).length
          = offset + (x :: xs).length := by
        rw [List.length_append, hpad]
      rw [List.getElem?_append_right (by rw [hlen]; exact h), hlen, List.getElem?_drop]
      congr 1
      omega

theorem length_le_overlay (b : Bytes) (offset : Nat) (piece : Bytes) :
    b.length ≤ (b.overlay offset piece).length := by
  by_cases h : piece = []
  · rw [h]; exact Nat.le_refl _
  · rw [length_overlay b offset piece h]; exact Nat.le_max_left _ _

/-- The piece laid over is what is then found at its place. -/
theorem slice_overlay (b piece : Bytes) (offset : Nat) :
    (b.overlay offset piece).slice offset piece.length = piece := by
  cases piece with
  | nil => simp
  | cons x xs =>
    have hpad : ((b ++ List.replicate (offset - b.length) 0).take offset).length = offset := by
      simp; omega
    unfold overlay slice
    rw [List.append_assoc, List.drop_append_of_le_length (Nat.le_of_eq hpad.symm),
      List.drop_of_length_le (Nat.le_of_eq hpad), List.nil_append]
    exact List.take_left

/-! ### Pieces -/

/-- A bound that is large enough does not matter. -/
theorem piecesUpTo_eq {size : Nat} (hs : 0 < size) : ∀ (n m : Nat) (b : Bytes),
    b.length ≤ n → b.length ≤ m → piecesUpTo n size b = piecesUpTo m size b
  | 0, 0, _, _, _ => rfl
  | 0, _ + 1, [], _, _ => rfl
  | _ + 1, 0, [], _, _ => rfl
  | _ + 1, _ + 1, [], _, _ => rfl
  | n + 1, m + 1, x :: xs, hn, hm => by
    have hd : ((x :: xs).drop size).length ≤ xs.length := by
      rw [List.length_drop, List.length_cons]; omega
    rw [List.length_cons] at hn hm
    simp only [piecesUpTo]
    rw [piecesUpTo_eq hs n m _ (by omega) (by omega)]

theorem pieces_of_ne_nil {size : Nat} (hs : 0 < size) {b : Bytes} (hb : b ≠ []) :
    pieces size b = b.take size :: pieces size (b.drop size) := by
  cases b with
  | nil => exact absurd rfl hb
  | cons x xs =>
    have hd : ((x :: xs).drop size).length ≤ xs.length := by
      rw [List.length_drop, List.length_cons]; omega
    unfold pieces
    simp only [List.length_cons, piecesUpTo]
    rw [piecesUpTo_eq hs xs.length _ _ hd (Nat.le_refl _)]

/-- Induction along the pieces of some content. -/
theorem pieces_induction {size : Nat} (hs : 0 < size) {motive : Bytes → Prop} (nil : motive [])
    (step : ∀ b, b ≠ [] → motive (b.drop size) → motive b) (b : Bytes) : motive b := by
  suffices h : ∀ n (b : Bytes), b.length ≤ n → motive b from h b.length b (Nat.le_refl _)
  intro n
  induction n with
  | zero =>
    intro b hb
    rw [List.length_eq_zero_iff.1 (Nat.le_zero.1 hb)]
    exact nil
  | succ n ih =>
    intro b hb
    by_cases h : b = []
    · rw [h]; exact nil
    · have hpos := List.length_pos_iff.2 h
      exact step b h (ih _ (by rw [List.length_drop]; omega))

/-- The pieces, put together again, are the content. -/
theorem flatten_pieces {size : Nat} (hs : 0 < size) (b : Bytes) : (pieces size b).flatten = b := by
  induction b using pieces_induction hs with
  | nil => rfl
  | step b hb ih => rw [pieces_of_ne_nil hs hb, List.flatten_cons, ih, List.take_append_drop]

theorem length_pieces {size : Nat} (hs : 0 < size) (b : Bytes) :
    (pieces size b).length = ceilDiv b.length size := by
  induction b using pieces_induction hs with
  | nil => exact (ceilDiv_zero hs).symm
  | step b hb ih =>
    rw [pieces_of_ne_nil hs hb, List.length_cons, ih, List.length_drop,
      ← ceilDiv_of_pos hs (List.length_pos_iff.2 hb)]

/-- A piece is the slice at its place. -/
theorem getElem?_pieces {size : Nat} (hs : 0 < size) (b : Bytes) {i : Nat}
    (hi : i < ceilDiv b.length size) : (pieces size b)[i]? = some (b.slice (i * size) size) := by
  induction b using pieces_induction hs generalizing i with
  | nil =>
    have h0 : ceilDiv ([] : Bytes).length size = 0 := ceilDiv_zero hs
    omega
  | step b hb ih =>
    rw [pieces_of_ne_nil hs hb]
    cases i with
    | zero => simp [slice]
    | succ i =>
      rw [ceilDiv_of_pos hs (List.length_pos_iff.2 hb)] at hi
      rw [List.getElem?_cons_succ, ih (by rw [List.length_drop]; omega)]
      unfold slice
      rw [List.drop_drop, Nat.succ_mul, Nat.add_comm size]

/-! ### Numbers -/

theorem toNatLE_lt (b : Bytes) : toNatLE b < Nat.pow 256 b.length := by
  induction b with
  | nil => decide
  | cons x xs ih =>
    have hx := x.toNat_lt
    have hp : Nat.pow 256 (xs.length + 1) = Nat.pow 256 xs.length * 256 := rfl
    rw [toNatLE, List.length_cons, hp]
    omega

/-- A number that fits is read back from its bytes. -/
theorem toNatLE_ofNatLE : ∀ (width n : Nat), n < Nat.pow 256 width → toNatLE (ofNatLE width n) = n
  | 0, n, h => by
    have h1 : Nat.pow 256 0 = 1 := rfl
    rw [h1] at h
    simp only [ofNatLE, toNatLE]
    omega
  | width + 1, n, h => by
    have hp : Nat.pow 256 (width + 1) = Nat.pow 256 width * 256 := rfl
    rw [hp] at h
    have ih := toNatLE_ofNatLE width (n / 256) (by omega)
    have hx : (UInt8.ofNat (n % 256)).toNat = n % 256 := by
      rw [UInt8.toNat_ofNat']; omega
    simp only [ofNatLE, toNatLE, ih, hx]
    omega

/-- A number between two pieces is read from its place. -/
theorem toNatLE_slice {b front back : Bytes} {start width n : Nat}
    (hsplit : b = front ++ (ofNatLE width n ++ back)) (hfront : front.length = start)
    (hn : n < Nat.pow 256 width) : toNatLE (slice b start width) = n := by
  have hslice := slice_append front (ofNatLE width n) back
  rw [length_ofNatLE, hfront] at hslice
  rw [hsplit, hslice, toNatLE_ofNatLE width n hn]

/-- Bytes are written back from the number that they stand for. -/
theorem ofNatLE_toNatLE : ∀ b : Bytes, ofNatLE b.length (toNatLE b) = b
  | [] => rfl
  | x :: xs => by
    have hx := x.toNat_lt
    have hmod : (x.toNat + 256 * toNatLE xs) % 256 = x.toNat := by omega
    have hdiv : (x.toNat + 256 * toNatLE xs) / 256 = toNatLE xs := by omega
    rw [List.length_cons, toNatLE, ofNatLE, hmod, hdiv, ofNatLE_toNatLE xs, UInt8.ofNat_toNat]

end Bytes
end VerifiedCopy
