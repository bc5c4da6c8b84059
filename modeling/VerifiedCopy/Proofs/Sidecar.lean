/-
# Taking a sidecar apart

Each reader of a sidecar takes a piece off the front, and what it takes is what
was written there: `b` gives `x` and a rest exactly if `b` is the bytes of `x`
with the rest behind them. So the bytes of an accepted sidecar are determined by
what was read. A reader that refuses does so with a format error (`Refuses`).

Key definitions: `Sidecar.Refuses`.
Key theorems: `checkedBody_eq_ok_iff`, `takeHeader_eq_ok_iff`,
`takeNat_eq_ok_iff`, `takeDigests_eq_ok_iff`.
-/
import VerifiedCopy.Proofs.Bytes
import VerifiedCopy.Proofs.Results
import VerifiedCopy.Sidecar

namespace VerifiedCopy
namespace Sidecar

variable {α : Type} {b x rest body : Bytes} {n width : Nat} {what magic : String} {e : Error}

/-- Every refusal of a reader is a format error. -/
def Refuses (r : Except Error α) : Prop :=
  ∀ e, r = .error e → ∃ text, e = .format text

theorem Refuses.bind {β : Type} {r : Except Error α} {k : α → Except Error β} (h : Refuses r)
    (hk : ∀ a, r = .ok a → Refuses (k a)) : Refuses (r >>= k) := by
  intro e he
  rcases bind_eq_error_iff.1 he with he | ⟨a, ha, he⟩
  · exact h e he
  · exact hk a ha e he

theorem Refuses.check {β : Type} {p : Prop} [Decidable p] {text : String}
    {k : α → Except Error β} {y : Except Error β} (hy : ¬ p → Refuses y) :
    Refuses (if p then (throw (.format text) >>= k) else y) := by
  intro e he
  rcases refuse_eq_error_iff.1 he with ⟨-, rfl⟩ | ⟨hp, he⟩
  · exact ⟨text, rfl⟩
  · exact hy hp e he

/-! ### The frame -/

/-- A sidecar is its body and the checksum of it. -/
theorem checkedBody_eq_ok_iff {minimum : Nat} : checkedBody what minimum b = .ok body ↔
    b = withChecksum body ∧ minimum ≤ body.length := by
  have htrailer := Checksum.length_trailer body
  unfold checkedBody withChecksum
  constructor
  · intro h
    split at h
    · cases h
    · rename_i hlen
      dsimp only at h
      split at h
      · rename_i hcrc
        cases h
        rw [hcrc, List.take_append_drop, List.length_take]
        exact ⟨rfl, by omega⟩
      · cases h
  · rintro ⟨rfl, hmin⟩
    have hlen : (body ++ Checksum.trailer body).length - 4 = body.length := by
      rw [List.length_append]
      omega
    rw [hlen, if_neg (by rw [List.length_append]; omega), List.take_left, List.drop_left]
    exact if_pos rfl

theorem checkedBody_refuses (what : String) (minimum : Nat) (b : Bytes) :
    Refuses (checkedBody what minimum b) := by
  intro e he
  unfold checkedBody at he
  split at he
  · cases he; exact ⟨_, rfl⟩
  · dsimp only at he
    split at he
    · cases he
    · cases he; exact ⟨_, rfl⟩

/-! ### Pieces -/

theorem take_eq_ok_iff : take n b = .ok (x, rest) ↔ b = x ++ rest ∧ x.length = n := by
  unfold take
  constructor
  · intro h
    split at h
    · cases h
    · rename_i hlen
      cases h
      rw [List.take_append_drop, List.length_take]
      exact ⟨rfl, by omega⟩
  · rintro ⟨rfl, rfl⟩
    rw [if_neg (by rw [List.length_append]; omega), List.take_left, List.drop_left]

theorem take_refuses (n : Nat) (b : Bytes) : Refuses (take n b) := by
  intro e he
  unfold take at he
  split at he
  · cases he; exact ⟨_, rfl⟩
  · cases he

/-- A number is read from the bytes that it is written as. -/
theorem takeNat_eq_ok_iff : takeNat width b = .ok (n, rest) ↔
    n < Nat.pow 256 width ∧ b = Bytes.ofNatLE width n ++ rest := by
  unfold takeNat
  rw [map_eq_ok_iff]
  constructor
  · rintro ⟨⟨x, rest'⟩, h, he⟩
    cases he
    obtain ⟨rfl, rfl⟩ := take_eq_ok_iff.1 h
    rw [Bytes.ofNatLE_toNatLE]
    exact ⟨Bytes.toNatLE_lt x, rfl⟩
  · rintro ⟨hn, rfl⟩
    refine ⟨(Bytes.ofNatLE width n, rest), take_eq_ok_iff.2 ⟨rfl, Bytes.length_ofNatLE _ _⟩, ?_⟩
    rw [Bytes.toNatLE_ofNatLE width n hn]

theorem takeNat_refuses (width : Nat) (b : Bytes) : Refuses (takeNat width b) := by
  intro e he
  unfold takeNat at he
  cases h : take width b with
  | ok p => rw [h] at he; cases he
  | error e' =>
    rw [h] at he
    cases he
    exact take_refuses width b _ h

theorem ofBytes?_eq_some_iff {d : Digest} : Digest.ofBytes? b = some d ↔ b = d.bytes := by
  constructor
  · intro h
    unfold Digest.ofBytes? at h
    split at h
    · cases h; rfl
    · cases h
  · rintro rfl
    exact Digest.ofBytes?_bytes d

/-- The first digest is what the first 32 bytes hold. -/
theorem takeDigests_succ_eq_ok_iff {ds : List Digest} :
    takeDigests (n + 1) b = .ok (ds, rest) ↔
      ∃ d b' ds', b = d.bytes ++ b' ∧ takeDigests n b' = .ok (ds', rest) ∧ ds = d :: ds' := by
  rw [takeDigests]
  constructor
  · intro h
    split at h
    · cases h
    · rename_i d hd
      obtain ⟨⟨ds', rest'⟩, hds, he⟩ := map_eq_ok_iff.1 h
      cases he
      refine ⟨d, b.drop 32, ds', ?_, hds, rfl⟩
      rw [← ofBytes?_eq_some_iff.1 hd, List.take_append_drop]
  · rintro ⟨d, b', ds', rfl, hds, rfl⟩
    have htake : (d.bytes ++ b').take 32 = d.bytes := by
      rw [← d.length_bytes, List.take_left]
    have hdrop : (d.bytes ++ b').drop 32 = b' := by
      rw [← d.length_bytes, List.drop_left]
    rw [htake, hdrop, Digest.ofBytes?_bytes]
    dsimp only
    rw [hds]
    rfl

/-- Digests are read from their bytes, one after the other. -/
theorem takeDigests_eq_ok_iff {ds : List Digest} :
    takeDigests n b = .ok (ds, rest) ↔ b = ds.flatMap Digest.bytes ++ rest ∧ ds.length = n := by
  induction n generalizing b ds with
  | zero =>
    constructor
    · intro h
      cases h
      exact ⟨rfl, rfl⟩
    · rintro ⟨rfl, hlen⟩
      rw [List.length_eq_zero_iff.1 hlen]
      rfl
  | succ n ih =>
    rw [takeDigests_succ_eq_ok_iff]
    constructor
    · rintro ⟨d, b', ds', rfl, hds, rfl⟩
      obtain ⟨rfl, rfl⟩ := ih.1 hds
      rw [List.flatMap_cons, List.append_assoc]
      exact ⟨rfl, rfl⟩
    · rintro ⟨rfl, hlen⟩
      cases ds with
      | nil => cases hlen
      | cons d ds =>
        refine ⟨d, ds.flatMap Digest.bytes ++ rest, ds, ?_, ih.2 ⟨rfl, Nat.succ.inj hlen⟩, rfl⟩
        rw [List.flatMap_cons, List.append_assoc]

theorem takeDigests_refuses : ∀ (n : Nat) (b : Bytes), Refuses (takeDigests n b)
  | 0, b => fun e he => nomatch he
  | n + 1, b => by
    intro e he
    unfold takeDigests at he
    split at he
    · cases he; exact ⟨_, rfl⟩
    · cases h : takeDigests n (b.drop 32) with
      | ok p => rw [h] at he; cases he
      | error e' =>
        rw [h] at he
        cases he
        exact takeDigests_refuses n _ _ h

/-- A file of its kind starts with the magic, a zero byte and the version. -/
theorem takeHeader_eq_ok_iff (hmagic : (Bytes.ofText magic).length = 8) :
    takeHeader what magic b = .ok rest ↔
      b = Bytes.ofText magic ++ [0] ++ Bytes.ofNatLE 4 1 ++ rest := by
  unfold takeHeader
  rw [bind_eq_ok_iff]
  constructor
  · rintro ⟨⟨start, b₁⟩, hstart, h⟩
    obtain ⟨hmag, h⟩ := refuse_eq_ok_iff.1 h
    obtain ⟨⟨version, b₂⟩, hversion, h⟩ := bind_eq_ok_iff.1 h
    obtain ⟨hone, h⟩ := refuse_eq_ok_iff.1 h
    cases h
    obtain ⟨rfl, -⟩ := take_eq_ok_iff.1 hstart
    obtain ⟨-, rfl⟩ := takeNat_eq_ok_iff.1 hversion
    rw [Classical.not_not.1 hmag, Classical.not_not.1 hone]
    exact (List.append_assoc _ _ _).symm
  · rintro rfl
    have hlen : (Bytes.ofText magic ++ [0]).length = 9 := by
      rw [List.length_append, hmagic]
      rfl
    refine ⟨(Bytes.ofText magic ++ [0], Bytes.ofNatLE 4 1 ++ rest),
      take_eq_ok_iff.2 ⟨by rw [List.append_assoc], hlen⟩, refuse_eq_ok_iff.2 ⟨fun h => h rfl, ?_⟩⟩
    rw [bind_eq_ok_iff]
    exact ⟨(1, rest), takeNat_eq_ok_iff.2 ⟨by decide, rfl⟩,
      refuse_eq_ok_iff.2 ⟨fun h => h rfl, rfl⟩⟩

theorem takeHeader_refuses (what magic : String) (b : Bytes) :
    Refuses (takeHeader what magic b) := by
  refine (take_refuses 9 b).bind fun p _ => .check fun _ => ?_
  exact (takeNat_refuses 4 _).bind fun q _ => .check fun _ e he => nomatch he

end Sidecar
end VerifiedCopy
