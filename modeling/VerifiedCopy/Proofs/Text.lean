/-
# The bytes of a text

The bytes of a text are those of its characters, one after the other (`ofText_eq`). A
character below 128 is one byte, its number, and every other character starts with a byte
from 128 on; so a byte below 128 at the start of a text is its first character. The bytes
of a text are read as that text (`toText?_ofText`).

Key theorems: `Bytes.ofText_eq`, `Bytes.toText?_ofText`, `encodeChar_of_lt`,
`encodeChar_of_ge`.
-/
import VerifiedCopy.Bytes

namespace VerifiedCopy

theorem toList_loop (a : ByteArray) (i : Nat) (r : List UInt8) :
    ByteArray.toList.loop a i r = r.reverse ++ a.data.toList.drop i := by
  fun_induction ByteArray.toList.loop a i r with
  | case1 i r hlt ih =>
    have hlen : i < a.data.toList.length := hlt
    have hget : a.get! i = a.data.toList[i] := getElem!_pos a.data i hlt
    rw [ih, List.drop_eq_getElem_cons hlen, List.reverse_cons, List.append_assoc, hget]
    rfl
  | case2 i r hge =>
    have hlen : a.data.toList.length ≤ i := Nat.le_of_not_lt hge
    rw [List.drop_eq_nil_of_le hlen, List.append_nil]

/-- The bytes of a text are those of its characters. -/
theorem Bytes.ofText_eq (s : String) :
    ofText s = s.toList.flatMap String.utf8EncodeChar := by
  have hencode : s.toUTF8 = (s.toList.flatMap String.utf8EncodeChar).toByteArray :=
    String.utf8Encode_toList.symm
  unfold ofText
  rw [hencode, ByteArray.toList, toList_loop, List.data_toByteArray]
  rfl

/-- The bytes of a text are read as the text. -/
theorem Bytes.toText?_ofText (s : String) : toText? (ofText s) = some s := by
  have hbytes : ByteArray.mk (ofText s).toArray = s.toUTF8 := by
    unfold ofText ByteArray.toList
    rw [toList_loop, List.reverse_nil, List.nil_append, List.drop_zero, Array.toArray_toList]
  unfold toText?
  rw [hbytes]
  exact dif_pos s.isValidUTF8

/-- A character below 128 is its number. -/
theorem encodeChar_of_lt {c : Char} (h : c.toNat < 128) :
    String.utf8EncodeChar c = [UInt8.ofNat c.toNat] :=
  if_pos (Nat.le_of_lt_succ h)

/-- Any other character starts with a byte from 128 on. -/
theorem encodeChar_of_ge {c : Char} (h : 128 ≤ c.toNat) :
    ∃ b rest, String.utf8EncodeChar c = b :: rest ∧ 128 ≤ b.toNat := by
  have hbyte : ∀ k, k < 64 → 128 ≤ (UInt8.ofNat (k + 192)).toNat := by
    intro k hk
    have hsize : UInt8.size = 256 := rfl
    rw [UInt8.toNat_ofNat_of_lt' (by omega)]
    omega
  unfold String.utf8EncodeChar
  dsimp only
  have hlarge : ¬ c.val.toNat ≤ 127 := Nat.not_le_of_lt h
  rw [if_neg hlarge]
  split
  · exact ⟨_, _, rfl, hbyte _ (by omega)⟩
  · split
    · exact ⟨_, _, rfl, hbyte (_ + 32) (by omega)⟩
    · exact ⟨_, _, rfl, hbyte (_ + 48) (by omega)⟩

end VerifiedCopy
