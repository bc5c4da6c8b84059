/-
# A quoted text is read as it was

A byte stands between the quotes of a JSON text in one of three forms: as itself, as a
backslash with a letter, or as a backslash with `u` and four digits (`Text.Stands`). Each
form is scanned as a whole and stands for its byte whatever follows it, so a scan of an
escaped string of bytes ends at the quote after it, and the bytes come back. No byte of a
form is an open quote, and a unit that is written is never half of a surrogate pair.

Key definitions: `Text.Stands`.
Key theorems: `stands_escapeByte`, `scan_escape`, `unescape_escape`, `toText?_escape`.
-/
import VerifiedCopy.Json.Text
import VerifiedCopy.Proofs.Digest

namespace VerifiedCopy

/-- A digit has one byte, with its value. -/
theorem Hex.encodeChar_digit {v : Nat} (hv : v < 16) :
    ∃ b, String.utf8EncodeChar (digit v) = [b] ∧ value? b = some v := by
  have hlower : ∀ v < 16, (digit v).toLower = digit v := by decide
  exact ⟨_, encodeChar_of_toLower hv (hlower v hv)⟩

namespace Json.Text

variable {c : UInt8} {form b rest text : Bytes}

/-- The forms in which a byte stands between the quotes of a text. -/
inductive Stands (c : UInt8) : Bytes → Prop where
  | plain (hmark : c ≠ mark) (hslash : c ≠ slash) (hlow : ¬ c < 0x20) : Stands c [c]
  | letter {x : UInt8} (hx : x ≠ letterU) (hc : ofLetter? x = some c) : Stands c [slash, x]
  | unit {x y z w : UInt8} (hc : unit? x y z w = some c.toNat) (hlow : c < 0x20) :
    Stands c [slash, letterU, x, y, z, w]

/-- The two digits of a byte, after two zeros, are the unit with its number. -/
theorem unit?_encode (c : UInt8) : ∃ z w,
    Bytes.ofText (String.ofList (Hex.encode [c])) = [z, w] ∧
      unit? 0x30 0x30 z w = some c.toNat := by
  have hc := c.toNat_lt
  obtain ⟨z, hz, hvz⟩ := Hex.encodeChar_digit (v := c.toNat / 16) (by omega)
  obtain ⟨w, hw, hvw⟩ := Hex.encodeChar_digit (v := c.toNat % 16) (by omega)
  refine ⟨z, w, ?_, ?_⟩
  · rw [Bytes.ofText_eq, String.toList_ofList, Hex.encode, Hex.encode, List.flatMap_cons,
      List.flatMap_cons, List.flatMap_nil, hz, hw]
    rfl
  · have hzero : Hex.value? 0x30 = some 0 := by decide
    have hsum : ((0 * 16 + 0) * 16 + c.toNat / 16) * 16 + c.toNat % 16 = c.toNat := by omega
    unfold unit?
    rw [hzero, hvz, hvw]
    exact congrArg some hsum

theorem stands_escapeByte (c : UInt8) : Stands c (escapeByte c) := by
  unfold escapeByte
  split
  · rename_i h
    rcases h with rfl | rfl
    · exact .letter (by decide) rfl
    · exact .letter (by decide) rfl
  rename_i hplain
  -- Five control characters have a letter of their own.
  iterate 5
    split
    · rename_i h
      subst h
      exact .letter (by decide) rfl
  split
  · rename_i hlow
    have hzeros : Bytes.ofText "u00" = [letterU, 0x30, 0x30] := by decide +kernel
    obtain ⟨z, w, hform, hunit⟩ := unit?_encode c
    rw [hzeros, hform]
    exact .unit hunit hlow
  · rename_i hlow
    exact .plain (fun h => hplain (.inl h)) (fun h => hplain (.inr h)) hlow

/-! ### Finding the closing quote -/

theorem scan_append (h : Stands c form) (hb : scan b = some (text, rest)) :
    scan (form ++ b) = some (form ++ text, rest) := by
  cases h with
  | plain hmark hslash hlow =>
    refine (scan.eq_5 c b hmark (fun _ _ _ _ _ h _ => hslash h) fun _ _ h _ => hslash h).trans ?_
    rw [if_neg hlow, hb]
    rfl
  | letter hx hc =>
    refine (scan.eq_4 _ b fun _ _ _ _ _ h _ => hx h).trans ?_
    rw [hc, hb]
    rfl
  | unit hc _ =>
    refine (scan.eq_3 _ _ _ _ b).trans ?_
    rw [hc, hb]
    rfl

/-- The scan of an escaped string of bytes ends at the quote after it. -/
theorem scan_escape (rest : Bytes) : ∀ b : Bytes,
    scan (escape b ++ mark :: rest) = some (escape b, rest)
  | [] => scan.eq_2 rest
  | c :: b => by
    have hscan := scan_append (stands_escapeByte c) (scan_escape rest b)
    rw [← List.append_assoc] at hscan
    exact hscan

/-! ### The bytes that are meant -/

/-- A control character is its number, which is no half of a surrogate pair. -/
theorem control_unit : ∀ n < 32,
    utf8 n = [UInt8.ofNat n] ∧ isLead n = false ∧ isTrail n = false := by
  decide +kernel

theorem unescape_append (h : Stands c form) (hb : unescape b = some text) :
    unescape (form ++ b) = some (c :: text) := by
  cases h with
  | plain hmark hslash hlow =>
    refine (unescape.eq_5 c b (fun _ _ _ _ _ _ _ _ _ h _ => hslash h)
      (fun _ _ _ _ _ h _ => hslash h) fun _ _ h _ => hslash h).trans ?_
    rw [hb]
    rfl
  | letter hx hc =>
    refine (unescape.eq_4 _ b (fun _ _ _ _ _ _ _ _ _ h _ => hx h)
      fun _ _ _ _ _ h _ => hx h).trans ?_
    rw [hc, hb]
    rfl
  | unit hc hlow =>
    obtain ⟨hutf8, hlead, htrail⟩ := control_unit c.toNat (UInt8.lt_iff_toNat_lt.1 hlow)
    rw [UInt8.ofNat_toNat] at hutf8
    -- Another unit may follow, which the reader looks at for the second half of a pair.
    by_cases hnext : ∃ e f g k rest, b = slash :: letterU :: e :: f :: g :: k :: rest
    · obtain ⟨e, f, g, k, rest, rfl⟩ := hnext
      refine (unescape.eq_2 _ _ _ _ e f g k rest).trans ?_
      rw [hc]
      simp only [Option.bind_eq_bind, Option.bind_some, hlead, htrail]
      rw [hb, hutf8]
      rfl
    · refine (unescape.eq_3 _ _ _ _ b fun e f g k rest hr => hnext ⟨e, f, g, k, rest, hr⟩).trans ?_
      rw [hc]
      simp only [Option.bind_eq_bind, Option.bind_some, hlead, htrail]
      rw [hb, hutf8]
      rfl

/-- What is escaped comes back. -/
theorem unescape_escape : ∀ b : Bytes, unescape (escape b) = some b
  | [] => unescape.eq_1
  | c :: b => unescape_append (stands_escapeByte c) (unescape_escape b)

theorem toText?_escape (s : String) : toText? (escape (Bytes.ofText s)) = some s := by
  unfold toText?
  rw [unescape_escape]
  exact Bytes.toText?_ofText s

/-- A control character, a quote, a backslash and a letter beyond ASCII. -/
example : escape (Bytes.ofText "\x1b\"\\é") = Bytes.ofText "\\u001b\\\"\\\\é" := by
  decide +kernel

end Json.Text
end VerifiedCopy
