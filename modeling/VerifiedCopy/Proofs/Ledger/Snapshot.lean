/-
# Snapshots of a ledger, read back

A string of bytes is accepted as the sidecar of a ledger exactly if it is the
snapshot of that ledger (`restore_eq_ok_iff`). A snapshot holds the two rows of
bits as they are, the spare bits too, and nothing else of a ledger: what comes
back is in memory only, with nothing in flight.

Key theorems: `Sidecar.takeBits_eq_ok_iff`, `restore_eq_ok_iff`.
-/
import VerifiedCopy.Ledger.Snapshot
import VerifiedCopy.Proofs.Sidecar

namespace VerifiedCopy

/-- A row of bits is read from its bytes. -/
theorem Sidecar.takeBits_eq_ok_iff {n : Nat} {b rest : Bytes} {row : Bits n} :
    Sidecar.takeBits n b = .ok (row, rest) ↔ b = row.bytes ++ rest := by
  unfold Sidecar.takeBits
  constructor
  · intro h
    split at h
    · cases h
      exact (List.take_append_drop _ _).symm
    · cases h
  · rintro rfl
    have hlen := row.length_bytes
    have htake : (row.bytes ++ rest).take (bitBytes n) = row.bytes := by
      rw [← hlen, List.take_left]
    have hdrop : (row.bytes ++ rest).drop (bitBytes n) = rest := by
      rw [← hlen, List.drop_left]
    rw [dif_pos (by rw [List.length_append]; omega)]
    simp only [htake, hdrop]

namespace Ledger

variable {g : Ledger} {b : Bytes}

theorem length_magic : (Bytes.ofText magic).length = 8 := by decide +kernel

/-- What the rows of a snapshot stand behind. -/
theorem length_body (g : Ledger) : g.body.length = headerLength + 2 * bitBytes g.chunkCount := by
  unfold body headerLength
  simp only [List.length_append, Bytes.length_ofNatLE, length_magic, g.present.length_bytes,
    g.valid.length_bytes, List.length_singleton]
  omega

/-- A ledger is restored from its snapshot and from nothing else. -/
theorem restore_eq_ok_iff : restore b = .ok g ↔
    b = g.snapshot ∧ g.chunkCount < UInt32.size ∧ g.inFlight = [] ∧ g.flights = [] ∧
      g.path = none := by
  have hlength := g.length_body
  unfold restore
  constructor
  · intro h
    obtain ⟨body, hbody, h⟩ := bind_eq_ok_iff.1 h
    obtain ⟨rest, hhead, h⟩ := bind_eq_ok_iff.1 h
    obtain ⟨⟨count, rest₁⟩, hcount, h⟩ := bind_eq_ok_iff.1 h
    obtain ⟨⟨present, rest₂⟩, hpresent, h⟩ := bind_eq_ok_iff.1 h
    obtain ⟨⟨valid, rest₃⟩, hvalid, h⟩ := bind_eq_ok_iff.1 h
    obtain ⟨hnil, h⟩ := refuse_eq_ok_iff.1 h
    cases h
    obtain ⟨rfl, -⟩ := Sidecar.checkedBody_eq_ok_iff.1 hbody
    obtain ⟨hlt, rfl⟩ := Sidecar.takeNat_eq_ok_iff.1 hcount
    obtain rfl := Sidecar.takeBits_eq_ok_iff.1 hpresent
    obtain rfl := Sidecar.takeBits_eq_ok_iff.1 hvalid
    obtain rfl : rest₃ = [] := Classical.not_not.1 hnil
    refine ⟨?_, hlt, rfl, rfl, rfl⟩
    rw [(Sidecar.takeHeader_eq_ok_iff length_magic).1 hhead, List.append_nil]
    unfold snapshot Ledger.body
    simp only [List.append_assoc]
  · rintro ⟨rfl, hlt, hidle, hflights, hpath⟩
    refine bind_eq_ok_iff.2 ⟨g.body, Sidecar.checkedBody_eq_ok_iff.2 ⟨rfl, by omega⟩, ?_⟩
    refine bind_eq_ok_iff.2 ⟨_, (Sidecar.takeHeader_eq_ok_iff length_magic).2 (by
      rw [body, List.append_assoc, List.append_assoc]), ?_⟩
    refine bind_eq_ok_iff.2 ⟨(g.chunkCount, _), Sidecar.takeNat_eq_ok_iff.2 ⟨hlt, rfl⟩, ?_⟩
    refine bind_eq_ok_iff.2 ⟨(g.present, _), Sidecar.takeBits_eq_ok_iff.2 rfl, ?_⟩
    refine bind_eq_ok_iff.2 ⟨(g.valid, []), Sidecar.takeBits_eq_ok_iff.2
      (List.append_nil _).symm, ?_⟩
    refine refuse_eq_ok_iff.2 ⟨fun h => h rfl, ?_⟩
    obtain ⟨chunkCount, present, valid, inFlight, flights, path⟩ := g
    cases hidle
    cases hflights
    cases hpath
    rfl

/-- Nothing is in flight on a ledger that was restored. -/
theorem restore_inFlight (h : restore b = .ok g) : g.inFlight = [] :=
  (restore_eq_ok_iff.1 h).2.2.1

end Ledger
end VerifiedCopy
