/-
# Damaged sidecars are refused

Every sidecar that is accepted leaves the same register behind when the division
goes on over its checksum. Damage that is confined to four bytes in a row changes
that register, wherever it lies: in the header, in the body, in the checksum or
across its edge. So both readers refuse the damaged string, and they do so before
they look at what it says.

Key theorems: `checkedBody_of_damage`, `damage_refused`.
-/
import VerifiedCopy.Proofs.Checksum
import VerifiedCopy.Proofs.Ledger.Snapshot
import VerifiedCopy.Proofs.Tree.Codec

namespace VerifiedCopy
namespace Sidecar

variable {what : String} {minimum : Nat} {b b' body : Bytes}

/-- A string that is as long as an accepted one, and differs from it within four
bytes, has a checksum that is wrong. -/
theorem checkedBody_of_damage (h : checkedBody what minimum b = .ok body)
    (hd : b.DifferWithin 4 b') (hne : b' ≠ b) :
    checkedBody what minimum b' = .error (.format s!"{what} sidecar CRC mismatch") := by
  obtain ⟨rfl, hmin⟩ := checkedBody_eq_ok_iff.1 h
  have hlong : ¬ b'.length < minimum + 4 := by
    have hlen : (body ++ Checksum.trailer body).length = b'.length := hd.1
    rw [List.length_append, Checksum.length_trailer] at hlen
    omega
  -- if the checksum were right, both strings would leave the same register behind
  have hcrc : ¬ Checksum.trailer (b'.take (b'.length - 4)) = b'.drop (b'.length - 4) := by
    intro htrailer
    have hb' : b' = withChecksum (b'.take (b'.length - 4)) := by
      unfold withChecksum
      rw [htrailer, List.take_append_drop]
    have hrun : Checksum.run Checksum.initial (withChecksum body) =
        Checksum.run Checksum.initial b' := by
      rw [hb']
      exact (Checksum.run_append_trailer _).trans (Checksum.run_append_trailer _).symm
    exact hne (Checksum.eq_of_differWithin hd hrun).symm
  unfold checkedBody
  rw [if_neg hlong]
  exact if_neg hcrc

end Sidecar

/-- Damage within four bytes in a row, anywhere in the sidecar of a tree or of a
ledger, is found by the reader of that sidecar. -/
theorem damage_refused {b b' : Bytes} (hd : b.DifferWithin 4 b') (hne : b' ≠ b) :
    (∀ t, Tree.decode b = .ok t →
      Tree.decode b' = .error (.format "tree sidecar CRC mismatch")) ∧
    (∀ g, Ledger.restore b = .ok g →
      Ledger.restore b' = .error (.format "state sidecar CRC mismatch")) := by
  constructor
  · intro t ht
    obtain ⟨body, hbody, -⟩ := bind_eq_ok_iff.1 ht
    have hbad := Sidecar.checkedBody_of_damage hbody hd hne
    exact bind_eq_error_iff.2 (.inl hbad)
  · intro g hg
    obtain ⟨body, hbody, -⟩ := bind_eq_ok_iff.1 hg
    have hbad := Sidecar.checkedBody_of_damage hbody hd hne
    exact bind_eq_error_iff.2 (.inl hbad)

/-- The tree of one chunk of four bytes. -/
def oneLeaf : Tree :=
  ⟨⟨4, 4, by decide, by decide, by decide⟩, (heapOfLeaves [Digest.padding]).toArray,
    [Digest.padding], rfl, rfl⟩

/-- The lowest bits of byte `k` and of the third byte behind it are turned over. -/
def Bytes.tamper (k : Nat) (b : Bytes) : Bytes :=
  (b.modify k (· ^^^ 1)).modify (k + 3) (· ^^^ 1)

theorem Bytes.differWithin_tamper (k : Nat) (b : Bytes) : b.DifferWithin 4 (b.tamper k) := by
  unfold tamper
  refine ⟨by rw [List.length_modify, List.length_modify], k, fun i hi => ?_⟩
  refine Classical.byContradiction fun hout => hi ?_
  have hlow : k ≠ i := by omega
  have hhigh : k + 3 ≠ i := by omega
  rw [List.getElem?_modify_ne _ _ hhigh, List.getElem?_modify_ne _ _ hlow]

/-- Damage across the edge of body and checksum, in both kinds of sidecar. -/
theorem damage_refused_across_edge :
    Tree.decode oneLeaf.encode = .ok oneLeaf ∧
      Tree.decode (oneLeaf.encode.tamper 63) = .error (.format "tree sidecar CRC mismatch") ∧
      Ledger.restore (Ledger.empty 1).snapshot = .ok (Ledger.empty 1) ∧
      Ledger.restore ((Ledger.empty 1).snapshot.tamper 17)
        = .error (.format "state sidecar CRC mismatch") := by
  have htree : Tree.decode oneLeaf.encode = .ok oneLeaf := oneLeaf.decode_body (by decide)
  have hledger : Ledger.restore (Ledger.empty 1).snapshot = .ok (Ledger.empty 1) :=
    Ledger.restore_eq_ok_iff.2 ⟨rfl, by decide, rfl, rfl, rfl⟩
  refine ⟨htree, ?_, hledger, ?_⟩
  · exact (damage_refused (Bytes.differWithin_tamper 63 _) (by decide +kernel)).1 _ htree
  · exact (damage_refused (Bytes.differWithin_tamper 17 _) (by decide +kernel)).2 _ hledger

end VerifiedCopy
