/-
# What a snapshot tells of a ledger in use

A snapshot holds the two bits of every chunk and not the chunks in flight, so a
chunk in flight is told by its bits alone when the snapshot is read back. It must
not come back as verified, and the bits of a chunk that was verified once stay
where they are while somebody fetches it again.

They cannot say so: a chunk takes off only if it is not verified, and while it is
in flight a failed attempt is all that can be written down (`Modest`). This holds
after any calls, also with tickets that have gone stale and on a ledger that was
restored with a bit `valid` without its bit `present`; so a snapshot taken at any
moment calls those chunks verified that are (`snapshot_read_back`).

Key definitions: `SaysGood`, `Modest`, `landed`.
Key theorems: `restore_snapshot`, `Effect.modest`, `snapshot_read_back`.
-/
import VerifiedCopy.Proofs.Desk.Tickets

namespace VerifiedCopy

namespace Ledger

variable {g : Ledger} {i j : Nat}

/-- The bits of a chunk are those of a verified one, in flight or not. -/
def SaysGood (g : Ledger) (i : Nat) : Prop :=
  g.present.get i = true ∧ g.valid.get i = true

/-- No chunk in flight has the bits of a verified one. -/
def Modest (g : Ledger) : Prop :=
  ∀ i, g.state i = .fetching → ¬ g.SaysGood i

/-- The ledger as its snapshot has it: nothing is in flight. -/
def landed (g : Ledger) : Ledger :=
  { g with inFlight := [], flights := [], path := none }

/-! ### Reading back -/

/-- A snapshot of a ledger of fewer than `2 ^ 32` chunks is read back. -/
theorem restore_snapshot (h : g.chunkCount < UInt32.size) : restore g.snapshot = .ok g.landed :=
  restore_eq_ok_iff.2 ⟨rfl, h, rfl, rfl, rfl⟩

theorem state_landed_eq_verified_iff : g.landed.state i = .verified ↔
    i < g.chunkCount ∧ g.SaysGood i := by
  rw [state_eq_verified_iff]
  exact ⟨fun ⟨hi, _, hbits⟩ => ⟨hi, hbits⟩, fun ⟨hi, hbits⟩ => ⟨hi, rfl, hbits⟩⟩

theorem state_landed_ne_fetching (g : Ledger) (i : Nat) : g.landed.state i ≠ .fetching :=
  state_ne_fetching rfl

/-- What is not in flight comes back as it was. -/
theorem state_landed (h : g.state i ≠ .fetching) : g.landed.state i = g.state i := by
  by_cases hi : i < g.chunkCount
  · exact state_congr rfl (flight?_eq_none hi h).symm rfl rfl
  · have hge := Nat.not_lt.1 hi
    rw [state_eq_absent_of_ge hge, state_eq_absent_of_ge (g := g.landed) hge]

/-- What is in flight does not come back as verified. -/
theorem Modest.state_landed_ne_verified (hm : g.Modest) (h : g.state i = .fetching) :
    g.landed.state i ≠ .verified :=
  fun hv => hm i h (state_landed_eq_verified_iff.1 hv).2

/-! ### The bits of a chunk -/

theorem saysGood_of_verified (h : g.state i = .verified) : g.SaysGood i :=
  (state_eq_verified_iff.1 h).2.2

/-- Settling a chunk leaves the bits of the others alone. -/
theorem saysGood_settle (h : g.state i = .fetching) (o : Outcome) (hj : j ≠ i) :
    (g.settle i o).2.SaysGood j ↔ g.SaysGood j := by
  obtain ⟨hi, flight, hf⟩ := state_eq_fetching_iff.1 h
  unfold SaysGood settle
  rw [if_pos hi, hf]
  simp only [Bits.get_set _ hi, if_neg hj]

/-- After a failed attempt was written down, the bits of the chunk are bad. -/
theorem saysGood_recordInvalid (hi : i < g.chunkCount) :
    (Ticket.recordInvalid ⟨i⟩ g).SaysGood j ↔ j ≠ i ∧ g.SaysGood j := by
  unfold SaysGood Ticket.recordInvalid
  simp only [Bits.get_set _ hi]
  by_cases hj : j = i
  · simp [hj]
  · simp [hj]

/-- A verdict that is taken back does not add a good one. -/
theorem saysGood_of_demote (h : g.state i = .verified) (hj : (g.demote i).2.SaysGood j) :
    g.SaysGood j := by
  by_cases hji : j = i
  · rw [hji]
    exact saysGood_of_verified h
  · obtain ⟨hi, -⟩ := state_eq_verified_iff.1 h
    rw [demote_of_verified h] at hj
    unfold SaysGood at hj ⊢
    simp only [Bits.get_set _ hi, if_neg hji] at hj
    exact hj

theorem Fresh.modest (hg : g.Fresh) : g.Modest :=
  fun i h => absurd h (state_ne_fetching (hg.flight? i))

/-- A chunk that may take off does not have the bits of a verified one. -/
theorem Modest.depart (hm : g.Modest) (hi : i < g.chunkCount) (hf : g.flight? i = none)
    (hs : g.state i ≠ .verified) : (g.depart i).Modest := by
  intro j hj hgood
  rw [state_depart hi] at hj
  by_cases hji : j = i
  · rw [hji] at hgood
    exact hs (state_eq_verified_iff.2 ⟨hi, hf, hgood⟩)
  · rw [if_neg hji] at hj
    exact hm j hj hgood

theorem Modest.settle (hm : g.Modest) (h : g.state i = .fetching) (o : Outcome) :
    (g.settle i o).2.Modest := by
  intro j hj
  rw [state_settle h] at hj
  by_cases hji : j = i
  · rw [if_pos hji] at hj
    cases o <;> cases hj
  · rw [if_neg hji] at hj
    rw [saysGood_settle h o hji]
    exact hm j hj

theorem Modest.demote (hm : g.Modest) (h : g.state i = .verified) : (g.demote i).2.Modest := by
  intro j hj hgood
  rw [state_demote h] at hj
  by_cases hji : j = i
  · rw [if_pos hji] at hj
    cases hj
  · rw [if_neg hji] at hj
    exact hm j hj (saysGood_of_demote h hgood)

/-- This needs no chunk in flight: a ticket may be stale. -/
theorem Modest.recordInvalid (hm : g.Modest) (hi : i < g.chunkCount) :
    (Ticket.recordInvalid ⟨i⟩ g).Modest := by
  intro j hj hgood
  obtain ⟨hji, hgood⟩ := (saysGood_recordInvalid hi).1 hgood
  refine hm j ?_ hgood
  by_cases h : g.state i = .fetching
  · rw [state_recordInvalid h] at hj
    exact hj
  · rw [state_recordInvalid_of_ne hi h, if_neg hji] at hj
    exact hj

end Ledger

namespace Desk

variable {d d' : Desk} {c : Call}

/-- A ticket that is out is for a chunk that exists. -/
theorem Known.lt_chunkCount (hk : d.Known) {t : Ticket} (ht : t ∈ d.tickets) :
    t.index < d.ledger.chunkCount :=
  Nat.lt_of_not_le fun hge => hk t ht (Ledger.state_eq_absent_of_ge hge)

theorem Effect.modest (h : Effect d c d') (hk : d.Known) (hm : d.ledger.Modest) :
    d'.ledger.Modest := by
  cases h with
  | idle | expired => exact hm
  | claimed hi hf hs | started hi hf hs => exact hm.depart hi hf hs
  | marked _ _ hs | settled _ _ hs => exact hm.settle hs _
  | demoted hs => exact hm.demote hs
  | recorded ht => exact hm.recordInvalid (hk.lt_chunkCount ht)

theorem run_modest (calls : List Call) (hk : d.Known) (hm : d.ledger.Modest) :
    (d.run calls).ledger.Modest := by
  have hboth : (d.run calls).Known ∧ (d.run calls).ledger.Modest := by
    apply run_induction (p := fun d => d.Known ∧ d.ledger.Modest) _ ⟨hk, hm⟩
    rintro c - d d' heffect ⟨hk, hm⟩
    exact ⟨heffect.known hk, heffect.modest hk hm⟩
  exact hboth.2

end Desk

/-! ### From a fresh ledger on -/

namespace Ledger

open Desk (Call)

variable {g : Ledger}

theorem after_modest (hg : g.Fresh) (calls : List Call) : (g.after calls).ledger.Modest :=
  Desk.run_modest calls (exclusive_of_fresh hg).known hg.modest

/-- A snapshot that is taken after any calls is read back with as many chunks. The
verified chunks are the same, absent and invalid ones come back as such, and one in
flight comes back as absent or invalid. -/
theorem snapshot_read_back (hg : g.Fresh) (hcount : g.chunkCount < UInt32.size)
    (calls : List Call) :
    ∃ g', restore (g.after calls).ledger.snapshot = .ok g' ∧
      g'.chunkCount = (g.after calls).ledger.chunkCount ∧
      ∀ i, (g'.state i = .verified ↔ (g.after calls).ledger.state i = .verified) ∧
        ((g.after calls).ledger.state i ≠ .fetching →
          g'.state i = (g.after calls).ledger.state i) ∧
        ((g.after calls).ledger.state i = .fetching →
          g'.state i = .absent ∨ g'.state i = .invalid) := by
  have hsame := g.after_chunkCount calls
  have hmodest := after_modest hg calls
  refine ⟨(g.after calls).ledger.landed, restore_snapshot (by rw [hsame]; exact hcount), rfl,
    fun i => ?_⟩
  by_cases hs : (g.after calls).ledger.state i = .fetching
  · have hnot := hmodest.state_landed_ne_verified hs
    refine ⟨⟨fun hv => absurd hv hnot, fun hv => ?_⟩, fun hne => absurd hs hne, fun _ => ?_⟩
    · rw [hs] at hv
      cases hv
    · have hidle := state_landed_ne_fetching (g.after calls).ledger i
      cases hst : (g.after calls).ledger.landed.state i with
      | absent => exact .inl rfl
      | invalid => exact .inr rfl
      | fetching => exact absurd hst hidle
      | verified => exact absurd hst hnot
  · have hback := state_landed hs
    exact ⟨by rw [hback], fun _ => hback, fun h => absurd h hs⟩

/-- A ledger whose one chunk has the bit `valid` without the bit `present`. -/
def halfMarked : Ledger :=
  { chunkCount := 1, present := ⟨[0], rfl⟩, valid := .oneSet }

/-- The chunk is absent to begin with, and a failed attempt shows in a snapshot
that is taken while the chunk is in flight. -/
theorem snapshot_read_back_half_marked :
    halfMarked.Fresh ∧ halfMarked.chunkCount < UInt32.size ∧ halfMarked.state 0 = .absent ∧
      (halfMarked.after [.claim 0, .recordInvalid ⟨0⟩]).ledger.state 0 = .fetching ∧
      ∃ g', restore (halfMarked.after [.claim 0, .recordInvalid ⟨0⟩]).ledger.snapshot = .ok g' ∧
        g'.state 0 ≠ .verified := by
  have hg : halfMarked.Fresh :=
    .inr ⟨halfMarked.snapshot, restore_eq_ok_iff.2 ⟨rfl, by decide, rfl, rfl, rfl⟩⟩
  have hs : (halfMarked.after [.claim 0, .recordInvalid ⟨0⟩]).ledger.state 0 = .fetching := by
    decide
  obtain ⟨g', hrestore, -, hstates⟩ :=
    snapshot_read_back hg (by decide) [.claim 0, .recordInvalid ⟨0⟩]
  refine ⟨hg, by decide, by decide, hs, g', hrestore, fun hv => ?_⟩
  rw [(hstates 0).1, hs] at hv
  cases hv

end Ledger
end VerifiedCopy
