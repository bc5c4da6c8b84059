/-
# Digests in hexadecimal

A text is read as a digest exactly if its lower-case form is how the digest is written
(`Digest.ofHex_eq_ok_iff`). So a digest that is written is read back (`Digest.ofHex_hex`),
and texts that are read as the same digest are the same up to the case of the letters.

Key theorems: `Hex.decode_of_toLower`, `Hex.toLower_of_decode`, `Digest.ofHex_eq_ok_iff`.
-/
import VerifiedCopy.Digest
import VerifiedCopy.Proofs.Text

namespace VerifiedCopy
namespace Hex

/-! ### Single digits -/

theorem value?_lt {b : UInt8} {v : Nat} (h : value? b = some v) : v < 16 := by
  unfold value? at h
  dsimp only at h
  split at h
  · cases h; omega
  · split at h
    · cases h; omega
    · split at h
      · cases h; omega
      · cases h

theorem value?_of_ge {b : UInt8} (h : 128 ≤ b.toNat) : value? b = none := by
  unfold value?
  dsimp only
  rw [if_neg (by omega), if_neg (by omega), if_neg (by omega)]

/-- Digits of either case, among the characters below 128. -/
theorem value?_iff_toLower : ∀ n < 128, ∀ v < 16,
    value? (UInt8.ofNat n) = some v ↔ (Char.ofNat n).toLower = digit v := by
  decide +kernel

/-- No other character becomes a digit in lower case. -/
theorem lt_of_toLower {c : Char} {v : Nat} (hv : v < 16) (h : c.toLower = digit v) :
    c.toNat < 128 := by
  have hdigit : ∀ v < 16, (digit v).toNat < 128 := by decide
  unfold Char.toLower at h
  split at h
  · rename_i hupper
    exact Nat.lt_of_le_of_lt (UInt32.le_iff_toNat_le.1 hupper.2) (by decide)
  · rw [h]
    exact hdigit v hv

/-- A character that is a digit in lower case has one byte, with the value of the
digit. -/
theorem encodeChar_of_toLower {c : Char} {v : Nat} (hv : v < 16) (h : c.toLower = digit v) :
    String.utf8EncodeChar c = [UInt8.ofNat c.toNat] ∧
      value? (UInt8.ofNat c.toNat) = some v := by
  have hlt := lt_of_toLower hv h
  refine ⟨encodeChar_of_lt hlt, (value?_iff_toLower c.toNat hlt v hv).2 ?_⟩
  rw [Char.ofNat_toNat]
  exact h

/-- A character whose first byte is a digit has no other byte. -/
theorem toLower_of_encodeChar {c : Char} {b : UInt8} {rest : Bytes} {v : Nat}
    (h : String.utf8EncodeChar c = b :: rest) (hb : value? b = some v) :
    rest = [] ∧ c.toLower = digit v := by
  rcases Nat.lt_or_ge c.toNat 128 with hlt | hge
  · rw [encodeChar_of_lt hlt] at h
    cases h
    refine ⟨rfl, ?_⟩
    rw [← (value?_iff_toLower c.toNat hlt v (value?_lt hb)).1 hb, Char.ofNat_toNat]
  · obtain ⟨b', rest', h', hge'⟩ := encodeChar_of_ge hge
    rw [h] at h'
    cases h'
    rw [value?_of_ge hge'] at hb
    cases hb

/-! ### Rows of digits -/

/-- What is written is in lower case. -/
theorem map_toLower_encode : ∀ d : Bytes, (encode d).map Char.toLower = encode d
  | [] => rfl
  | x :: xs => by
    have hdigit : ∀ v < 16, (digit v).toLower = digit v := by decide
    have hx := x.toNat_lt
    unfold encode
    rw [List.map_cons, List.map_cons, map_toLower_encode xs, hdigit _ (by omega),
      hdigit _ (by omega)]

/-- A text that is the written form of some bytes, up to the case of the letters, is read
as these bytes. -/
theorem decode_of_toLower : ∀ {d : Bytes} {cs : List Char}, cs.map Char.toLower = encode d →
    decode (cs.flatMap String.utf8EncodeChar) = .ok d ∧
      (cs.flatMap String.utf8EncodeChar).length = 2 * d.length
  | [], cs, h => by
    obtain rfl := List.map_eq_nil_iff.1 h
    exact ⟨rfl, rfl⟩
  | x :: xs, cs, h => by
    unfold encode at h
    obtain ⟨c, cs₁, rfl, hc, h₁⟩ := List.map_eq_cons_iff.1 h
    obtain ⟨c', cs₂, rfl, hc', h₂⟩ := List.map_eq_cons_iff.1 h₁
    have hx := x.toNat_lt
    obtain ⟨henc, hval⟩ := encodeChar_of_toLower (by omega) hc
    obtain ⟨henc', hval'⟩ := encodeChar_of_toLower (by omega) hc'
    obtain ⟨hdec, hlen⟩ := decode_of_toLower h₂
    rw [List.flatMap_cons, List.flatMap_cons, henc, henc', List.singleton_append,
      List.singleton_append]
    refine ⟨?_, ?_⟩
    · unfold decode
      rw [hval, hval', hdec]
      have hjoin : UInt8.ofNat (16 * (x.toNat / 16) + x.toNat % 16) = x := by
        rw [Nat.div_add_mod, UInt8.ofNat_toNat]
      exact congrArg (fun y => Except.ok (y :: xs)) hjoin
    · rw [List.length_cons, List.length_cons, hlen, List.length_cons]
      omega

/-- The first byte of a text, if it is a digit, is the first character. -/
theorem exists_cons_of_digit {cs : List Char} {b : UInt8} {bs : Bytes} {v : Nat}
    (h : cs.flatMap String.utf8EncodeChar = b :: bs) (hb : value? b = some v) :
    ∃ c cs', cs = c :: cs' ∧ c.toLower = digit v ∧ cs'.flatMap String.utf8EncodeChar = bs := by
  cases cs with
  | nil => cases h
  | cons c cs' =>
    rw [List.flatMap_cons] at h
    cases hc : String.utf8EncodeChar c with
    | nil => exact absurd hc (String.utf8EncodeChar_ne_nil)
    | cons b' rest =>
      rw [hc, List.cons_append] at h
      obtain ⟨rfl, hrest⟩ := List.cons.inj h
      obtain ⟨rfl, hlower⟩ := toLower_of_encodeChar hc hb
      exact ⟨c, cs', rfl, hlower, hrest⟩

/-- A byte in hexadecimal. -/
theorem encode_cons_of_values {a b : Nat} (ha : a < 16) (hb : b < 16) (bs : Bytes) :
    encode (UInt8.ofNat (16 * a + b) :: bs) = digit a :: digit b :: encode bs := by
  have hsize : UInt8.size = 256 := rfl
  have hhigh : (16 * a + b) / 16 = a := by omega
  have hlow : (16 * a + b) % 16 = b := by omega
  rw [encode, UInt8.toNat_ofNat_of_lt' (by omega), hhigh, hlow]

/-- A text that is read as some bytes is their written form, up to the case of the
letters. -/
theorem toLower_of_decode : ∀ {d : Bytes} {cs : List Char},
    decode (cs.flatMap String.utf8EncodeChar) = .ok d →
    (cs.flatMap String.utf8EncodeChar).length = 2 * d.length →
    cs.map Char.toLower = encode d
  | [], [], _, _ => rfl
  | [], c :: cs, _, hlen => by
    rw [List.flatMap_cons, List.length_append, String.length_utf8EncodeChar] at hlen
    have hpos := c.utf8Size_pos
    rw [List.length_nil] at hlen
    omega
  | x :: xs, cs, h, hlen => by
    unfold decode at h
    split at h
    · rename_i b b' bs hbytes
      split at h
      · cases h
      · cases h
      · rename_i v v' hv hv'
        obtain ⟨d, hd, hx⟩ : ∃ d, decode bs = .ok d ∧ UInt8.ofNat (16 * v + v') :: d = x :: xs := by
          cases hd : decode bs with
          | error e => rw [hd] at h; cases h
          | ok d => rw [hd] at h; exact ⟨d, rfl, Except.ok.inj h⟩
        obtain ⟨c, cs₁, rfl, hc, h₁⟩ := exists_cons_of_digit hbytes hv
        obtain ⟨c', cs₂, rfl, hc', h₂⟩ := exists_cons_of_digit h₁ hv'
        obtain ⟨rfl, rfl⟩ := List.cons.inj hx
        have hrest : cs₂.map Char.toLower = encode d := by
          refine toLower_of_decode (h₂ ▸ hd) ?_
          rw [hbytes, List.length_cons, List.length_cons, List.length_cons] at hlen
          rw [h₂]
          omega
        rw [List.map_cons, List.map_cons, hc, hc', hrest,
          encode_cons_of_values (value?_lt hv) (value?_lt hv')]
    · cases h

end Hex

namespace Digest

theorem toLower_eq_hex_iff {s : String} {d : Digest} :
    s.toLower = d.hex ↔ s.toList.map Char.toLower = Hex.encode d.bytes := by
  have hmap : s.toLower = s.map Char.toLower := rfl
  rw [← String.toList_inj, hmap, String.toList_map, hex, String.toList_ofList]

theorem toLower_hex (d : Digest) : d.hex.toLower = d.hex := by
  rw [toLower_eq_hex_iff, hex, String.toList_ofList]
  exact Hex.map_toLower_encode d.bytes

/-- A text is read as a digest exactly if it is how the digest is written, up to the case
of the letters. -/
theorem ofHex_eq_ok_iff {s : String} {d : Digest} : ofHex s = .ok d ↔ s.toLower = d.hex := by
  rw [toLower_eq_hex_iff, ofHex, Bytes.ofText_eq]
  constructor
  · intro h
    unfold ofHexBytes at h
    split at h
    · rename_i hlen
      split at h
      · cases h
      · rename_i bytes hdec
        obtain rfl := Except.ok.inj h
        refine Hex.toLower_of_decode hdec ?_
        rw [hlen, Hex.length_decode hdec, hlen]
    · cases h
  · intro h
    obtain ⟨hdec, hlen⟩ := Hex.decode_of_toLower h
    rw [d.length_bytes] at hlen
    unfold ofHexBytes
    rw [dif_pos hlen]
    split
    · rename_i e he
      rw [hdec] at he
      cases he
    · rename_i bytes hbytes
      cases hdec.symm.trans hbytes
      rfl

/-- What is written is read back. -/
theorem ofHex_hex (d : Digest) : ofHex d.hex = .ok d := ofHex_eq_ok_iff.2 d.toLower_hex

end Digest
end VerifiedCopy
