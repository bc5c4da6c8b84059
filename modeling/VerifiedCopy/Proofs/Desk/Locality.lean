/-
# A call changes one chunk or nothing

The two bits of a chunk share their bytes with the bits of seven other chunks, and
the chunks in flight share one list. Still a call changes the flight and the bits of
the one chunk that it is about (`Effect.untouched`). The spare bits of the last byte
belong to no chunk; they stay as they are, like those of the chunks nearby.

A call that is refused changes nothing at all (`onLedger_of_fails`): each of them
looks at the state of its chunk before it writes the first bit.

Key definitions: `Bytes.bit`, `Ledger.bitsIn`, `Ledger.Untouched`, `Call.index?`,
`Call.Fails`.
Key theorems: `bitsIn_snapshot`, `Effect.untouched`, `onLedger_of_fails`, `calls_local`.
-/
import Mathlib.Data.List.GetD
import VerifiedCopy.Proofs.Desk.Restored

namespace VerifiedCopy

/-! ### Bits of a sidecar -/

/-- Bit `k` of a string of bytes, the lowest bit of a byte first. -/
def Bytes.bit (b : Bytes) (k : Nat) : Bool :=
  (b.getD (k / 8) 0).toNat.testBit (k % 8)

theorem Bytes.bit_append_left {a : Bytes} {k : Nat} (b : Bytes) (h : k < 8 * a.length) :
    Bytes.bit (a ++ b) k = Bytes.bit a k := by
  have hk : k / 8 < a.length := by omega
  unfold Bytes.bit
  rw [List.getD_append _ _ _ _ hk]

theorem Bytes.bit_append_right (a b : Bytes) (k : Nat) :
    Bytes.bit (a ++ b) (8 * a.length + k) = Bytes.bit b k := by
  have hbyte : (8 * a.length + k) / 8 = a.length + k / 8 := by omega
  unfold Bytes.bit
  rw [hbyte, List.getD_append_right _ _ _ _ (Nat.le_add_right _ _), Nat.add_sub_cancel_left,
    Nat.mul_add_mod]

namespace Ledger

variable {g g' : Ledger} {i j : Nat}

/-- The two bits of chunk `j` in the sidecar of `n` chunks. From `n` on they are spare. -/
def bitsIn (n : Nat) (b : Bytes) (j : Nat) : Bool × Bool :=
  (Bytes.bit b (8 * headerLength + j), Bytes.bit b (8 * (headerLength + bitBytes n) + j))

/-- What stands before the two rows of bits. -/
def header (g : Ledger) : Bytes :=
  Bytes.ofText magic ++ [0] ++ Bytes.ofNatLE 4 1 ++ Bytes.ofNatLE 4 g.chunkCount

theorem length_header (g : Ledger) : g.header.length = headerLength := by
  unfold header headerLength
  simp only [List.length_append, Bytes.length_ofNatLE, length_magic, List.length_singleton]

theorem snapshot_eq (g : Ledger) : g.snapshot =
    g.header ++ (g.present.bytes ++ (g.valid.bytes ++ Checksum.trailer g.body)) := by
  have hbody : g.body = g.header ++ g.present.bytes ++ g.valid.bytes := rfl
  unfold snapshot Sidecar.withChecksum
  rw [hbody, List.append_assoc, List.append_assoc]

/-- A snapshot holds the bits as the ledger has them, the spare ones too. -/
theorem bitsIn_snapshot (hj : j < 8 * bitBytes g.chunkCount) :
    bitsIn g.chunkCount g.snapshot j = (g.present.get j, g.valid.get j) := by
  have hpresent : j < 8 * g.present.bytes.length := by rw [g.present.length_bytes]; exact hj
  have hvalid : j < 8 * g.valid.bytes.length := by rw [g.valid.length_bytes]; exact hj
  have hplace : 8 * (headerLength + bitBytes g.chunkCount) + j =
      8 * g.header.length + (8 * g.present.bytes.length + j) := by
    rw [length_header, g.present.length_bytes]
    omega
  unfold bitsIn
  rw [snapshot_eq, hplace, ← g.length_header]
  simp only [Bytes.bit_append_right]
  rw [Bytes.bit_append_left _ hpresent, Bytes.bit_append_left _ hvalid]
  rfl

/-! ### What is left alone -/

/-- Chunk `j` has the same flight and the same bits in two ledgers. -/
structure Untouched (j : Nat) (g g' : Ledger) : Prop where
  chunkCount : g'.chunkCount = g.chunkCount
  flight? : g'.flight? j = g.flight? j
  present : g'.present.get j = g.present.get j
  valid : g'.valid.get j = g.valid.get j

theorem Untouched.refl (j : Nat) (g : Ledger) : g.Untouched j g :=
  ⟨rfl, rfl, rfl, rfl⟩

theorem Untouched.state (h : g.Untouched j g') : g'.state j = g.state j :=
  state_congr h.chunkCount h.flight? h.present h.valid

theorem Untouched.bitsIn_eq (h : g.Untouched j g') (hj : j < 8 * bitBytes g.chunkCount) :
    bitsIn g.chunkCount g'.snapshot j = bitsIn g.chunkCount g.snapshot j := by
  have hj' : j < 8 * bitBytes g'.chunkCount := by rw [h.chunkCount]; exact hj
  calc bitsIn g.chunkCount g'.snapshot j
      = bitsIn g'.chunkCount g'.snapshot j := by rw [h.chunkCount]
    _ = (g'.present.get j, g'.valid.get j) := bitsIn_snapshot hj'
    _ = (g.present.get j, g.valid.get j) := by rw [h.present, h.valid]
    _ = bitsIn g.chunkCount g.snapshot j := (bitsIn_snapshot hj).symm

theorem untouched_depart (h : j ≠ i) : g.Untouched j (g.depart i) where
  chunkCount := rfl
  flight? := by rw [flight?_depart, if_neg h]
  present := rfl
  valid := rfl

theorem untouched_recordInvalid (hi : i < g.chunkCount) (h : j ≠ i) :
    g.Untouched j (Ticket.recordInvalid ⟨i⟩ g) where
  chunkCount := rfl
  flight? := rfl
  present := by simp only [Ticket.recordInvalid, Bits.get_set _ hi, if_neg h]
  valid := by simp only [Ticket.recordInvalid, Bits.get_set _ hi, if_neg h]

theorem untouched_settle (hs : g.state i = .fetching) (o : Outcome) (h : j ≠ i) :
    g.Untouched j (g.settle i o).2 := by
  obtain ⟨hi, flight, hf⟩ := state_eq_fetching_iff.1 hs
  refine ⟨settle_chunkCount, by rw [flight?_settle hs, if_neg h], ?_, ?_⟩
  · unfold settle
    rw [if_pos hi, hf]
    simp only [Bits.get_set _ hi, if_neg h]
  · unfold settle
    rw [if_pos hi, hf]
    simp only [Bits.get_set _ hi, if_neg h]

theorem untouched_demote (hs : g.state i = .verified) (h : j ≠ i) :
    g.Untouched j (g.demote i).2 := by
  obtain ⟨hi, -⟩ := state_eq_verified_iff.1 hs
  rw [demote_of_verified hs]
  exact ⟨rfl, rfl, rfl, by simp only [Bits.get_set _ hi, if_neg h]⟩

end Ledger

/-! ### Calls -/

namespace Desk

/-- The caller is told that the call was not carried out. -/
def Answer.isFailure : Answer → Bool
  | claim r => !r.isOk
  | verdict r => !r.isOk
  | demoted b => !b
  | state _ | bytes _ | nothing => false

namespace Call

/-- The chunk that a call is about. -/
def index? : Call → Option Nat
  | claim i | markFetching i | markVerified i | markInvalid i | demote i | get i => some i
  | recordInvalid t | verified t | failed t _ | drop t => some t.index
  | snapshot => none

/-- The call is refused on the ledger `g`. -/
def Fails (g : Ledger) (c : Call) : Prop :=
  (c.answer g).isFailure = true

instance (g : Ledger) (c : Call) : Decidable (c.Fails g) :=
  inferInstanceAs (Decidable (_ = true))

theorem index?_of_verdict? {c : Call} {i : Nat} {o : Outcome} (h : c.verdict? = some (i, o)) :
    c.index? = some i := by
  cases c <;> cases h <;> rfl

end Call

variable {g : Ledger} {d d' : Desk} {c : Call} {i j : Nat}

/-- A call leaves alone every chunk that it is not about. -/
theorem Effect.untouched (h : Effect d c d') (hk : d.Known) (hj : c.index? ≠ some j) :
    d.ledger.Untouched j d'.ledger := by
  have hne : ∀ {i}, c.index? = some i → j ≠ i := fun hi hji => hj (hji ▸ hi)
  cases h with
  | idle | expired => exact .refl j _
  | claimed | started => exact Ledger.untouched_depart (hne rfl)
  | marked hc _ hs | settled hc _ hs =>
    exact Ledger.untouched_settle hs _ (hne (Call.index?_of_verdict? hc))
  | demoted hs => exact Ledger.untouched_demote hs (hne rfl)
  | recorded ht => exact Ledger.untouched_recordInvalid (hk.lt_chunkCount ht) (hne rfl)

/-- Settling is refused only before anything is written. -/
theorem settle_of_not_ok {o : Outcome} (h : (g.settle i o).1.isOk = false) :
    (g.settle i o).2 = g := by
  by_cases hs : g.state i = .fetching
  · rw [Ledger.settle_of_fetching hs] at h
    cases h
  · exact Ledger.settle_of_ne_fetching hs o

/-- A chunk that may not take off is left where it is. -/
theorem markFetching_of_not_ok (h : (g.markFetching i).1.isOk = false) :
    (g.markFetching i).2 = g := by
  unfold Ledger.markFetching at h ⊢
  by_cases hi : i < g.chunkCount
  · rw [if_pos hi] at h ⊢
    cases hs : g.state i with
    | absent | invalid =>
      rw [hs] at h
      cases h
    | fetching | verified => rfl
  · rw [if_neg hi]

/-- A call that is refused leaves the ledger as it was. -/
theorem onLedger_of_fails (h : c.Fails g) : c.onLedger g = g := by
  have hnot : ∀ {b : Bool}, (!b) = true → b = false := fun hb => by simpa using hb
  cases c with
  | claim i =>
    have hclaim : (g.claim i).1.isOk = false := hnot h
    rcases hanswer : g.claim i with ⟨e | answer, g'⟩
    · have hsame : (g.claim i).2 = g := by rw [hanswer, Ledger.claim_eq_error hanswer]
      exact hsame
    · rw [hanswer] at hclaim
      cases hclaim
  | markFetching i =>
    have hmark : (g.markFetching i).1.isOk = false := hnot h
    exact markFetching_of_not_ok hmark
  | markVerified i | markInvalid i => exact settle_of_not_ok (hnot h)
  | verified t | failed t e => exact settle_of_not_ok (hnot h)
  | demote i =>
    have hdemote : (g.demote i).1 = false := hnot h
    by_cases hs : g.state i = .verified
    · rw [Ledger.demote_of_verified hs] at hdemote
      cases hdemote
    · show (g.demote i).2 = g
      rw [Ledger.demote_of_ne_verified hs]
  | recordInvalid | drop | get | snapshot => cases h

theorem carryOut_of_fails (h : c.Fails d.ledger) : (d.carryOut c).ledger = d.ledger := by
  unfold carryOut
  split
  · exact onLedger_of_fails h
  · rfl

/-- A desk without tickets holds none for a chunk that never took off. -/
theorem known_nil (g : Ledger) : (⟨g, []⟩ : Desk).Known := fun _ ht => nomatch ht

end Desk

/-! ### From any ledger on -/

namespace Ledger

open Desk (Call)

/-- **Calls are atomic and local.** Take any ledger, restored or new, with a sidecar or without, and
any calls on it. If the next call is refused, the ledger is what it was: the state of each chunk, the
chunks in flight, and the snapshot. Whether it is refused or not, every chunk but the one that it is
about keeps its state, its flight, and its two bits in the snapshot; so do the spare bits. -/
theorem calls_local (g : Ledger) (calls : List Call) (c : Call) :
    (c.Fails (g.after calls).ledger →
      ((g.after calls).carryOut c).ledger = (g.after calls).ledger) ∧
    ∀ j, c.index? ≠ some j →
      ((g.after calls).carryOut c).ledger.state j = (g.after calls).ledger.state j ∧
      ((g.after calls).carryOut c).ledger.flight? j = (g.after calls).ledger.flight? j ∧
      (j < 8 * bitBytes g.chunkCount →
        bitsIn g.chunkCount ((g.after calls).carryOut c).ledger.snapshot j =
          bitsIn g.chunkCount (g.after calls).ledger.snapshot j) := by
  refine ⟨Desk.carryOut_of_fails, fun j hj => ?_⟩
  have hknown : (g.after calls).Known := Desk.run_known calls (Desk.known_nil g)
  have hleft := ((g.after calls).carryOut_effect c).untouched hknown hj
  refine ⟨hleft.state, hleft.flight?, fun hbits => ?_⟩
  rw [← g.after_chunkCount calls] at hbits ⊢
  exact hleft.bitsIn_eq hbits

/-- Nine chunks. Chunk 1 was marked as good while a ticket for it was out. -/
def nineChunks : Desk :=
  (empty 9).after [.claim 0, .claim 1, .markVerified 1]

/-- The ticket is good for nothing any more, and using it changes nothing. With a failed attempt
written down, the bits of chunk 1 change, and those of its neighbours and the spare ones do not. -/
theorem calls_local_nine :
    (Call.verified ⟨1⟩).Fails nineChunks.ledger ∧
      (nineChunks.carryOut (.verified ⟨1⟩)).ledger = nineChunks.ledger ∧
      nineChunks.ledger.state 1 = .verified ∧
      (nineChunks.carryOut (.recordInvalid ⟨1⟩)).ledger.state 1 = .invalid ∧
      (nineChunks.carryOut (.recordInvalid ⟨1⟩)).ledger.state 0 = .fetching ∧
      bitsIn 9 (nineChunks.carryOut (.recordInvalid ⟨1⟩)).ledger.snapshot 15 =
        bitsIn 9 nineChunks.ledger.snapshot 15 := by
  have hfails : (Call.verified ⟨1⟩).Fails nineChunks.ledger := by decide
  have hfirst : nineChunks.ledger.state 0 = .fetching := by decide
  have hstale := calls_local (empty 9) [.claim 0, .claim 1, .markVerified 1] (.verified ⟨1⟩)
  obtain ⟨-, hothers⟩ :=
    calls_local (empty 9) [.claim 0, .claim 1, .markVerified 1] (.recordInvalid ⟨1⟩)
  obtain ⟨hzero, -⟩ := hothers 0 (by decide)
  obtain ⟨-, -, hspare⟩ := hothers 15 (by decide)
  exact ⟨hfails, hstale.1 hfails, by decide, by decide, hzero.trans hfirst, hspare (by decide)⟩

end Ledger
end VerifiedCopy
