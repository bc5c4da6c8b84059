/-
# What the operations of the ledger do to the state of a chunk

The states of a ledger are read off two rows of bits and the chunks in flight.
Each operation changes the state of one chunk only (`state_depart`,
`state_settle`, `state_demote`), and writing down a failed attempt changes none,
because the chunk is in flight (`state_recordInvalid`).

Key theorems: `Bits.get_set`, `state_eq_verified_iff`, `claim_eq_owner`,
`state_depart`, `state_settle`, `state_recordInvalid`, `state_demote`.
-/
import VerifiedCopy.Ledger

namespace VerifiedCopy

/-! ### Bits -/

namespace Bits

/-- A row of one bit, which is set. -/
def oneSet : Bits 1 := ⟨[1], rfl⟩

theorem testBit_mask : ∀ i j : Fin 8,
    (mask i.val).toNat.testBit j.val = decide (j.val = i.val) := by
  decide

theorem testBit_not_mask : ∀ i j : Fin 8,
    (~~~(mask i.val)).toNat.testBit j.val = !decide (j.val = i.val) := by
  decide

/-- One bit of a byte after a bit of it was set. -/
theorem testBit_setInByte (x : UInt8) (i j : Fin 8) (on : Bool) :
    (setInByte x i.val on).toNat.testBit j.val =
      if j.val = i.val then on else x.toNat.testBit j.val := by
  unfold setInByte
  cases on with
  | true =>
    rw [if_pos rfl, UInt8.toNat_or, Nat.testBit_or, testBit_mask]
    by_cases h : j.val = i.val <;> simp [h]
  | false =>
    rw [if_neg Bool.false_ne_true, UInt8.toNat_and, Nat.testBit_and, testBit_not_mask]
    by_cases h : j.val = i.val <;> simp [h]

theorem setInByte_mod (x : UInt8) (i : Nat) (on : Bool) :
    setInByte x i on = setInByte x (i % 8) on := by
  unfold setInByte mask
  rw [Nat.mod_mod]

/-- A bit reads as it was set, and the other bits as before. -/
theorem get_set {n i : Nat} (b : Bits n) (hi : i < n) (on : Bool) (j : Nat) :
    (b.set i on).get j = if j = i then on else b.get j := by
  have hbyte : i / 8 < b.bytes.length := by
    rw [b.length_bytes, bitBytes]; omega
  unfold get set
  by_cases h : j / 8 = i / 8
  · have hset : (b.bytes.set (i / 8) (setInByte (b.bytes.getD (i / 8) 0) i on)).getD (j / 8) 0 =
        setInByte (b.bytes.getD (i / 8) 0) (i % 8) on := by
      rw [h, List.getD_eq_getElem?_getD, List.getElem?_set_self hbyte, ← setInByte_mod]
      rfl
    rw [hset]
    have hbit := testBit_setInByte (b.bytes.getD (i / 8) 0) ⟨i % 8, Nat.mod_lt i (by decide)⟩
      ⟨j % 8, Nat.mod_lt j (by decide)⟩ on
    refine hbit.trans ?_
    by_cases hji : j = i
    · rw [if_pos hji, if_pos (by rw [hji])]
    · rw [if_neg hji, if_neg (show ¬ j % 8 = i % 8 by omega), h]
  · rw [List.getD_eq_getElem?_getD, List.getElem?_set_ne (fun e => h e.symm),
      ← List.getD_eq_getElem?_getD, if_neg (fun e => h (by rw [e]))]

end Bits

/-! ### Flights -/

section Lookup

variable {κ α : Type} [BEq κ] [LawfulBEq κ]

theorem lookup_filter_ne (l : List (κ × α)) {i j : κ} (h : j ≠ i) :
    (l.filter fun e => e.1 != i).lookup j = l.lookup j := by
  induction l with
  | nil => rfl
  | cons e l ih =>
    obtain ⟨key, x⟩ := e
    by_cases hk : key = i
    · have hj : (j == key) = false := by rw [hk]; exact beq_false_of_ne h
      rw [List.filter_cons_of_neg (by simp [hk]), ih, List.lookup_cons, hj]
    · rw [List.filter_cons_of_pos (by simp [hk]), List.lookup_cons, List.lookup_cons, ih]

theorem lookup_filter_self (l : List (κ × α)) (i : κ) :
    (l.filter fun e => e.1 != i).lookup i = none := by
  induction l with
  | nil => rfl
  | cons e l ih =>
    obtain ⟨key, x⟩ := e
    by_cases hk : key = i
    · rw [List.filter_cons_of_neg (by simp [hk]), ih]
    · have hj : (i == key) = false := beq_false_of_ne (fun e => hk e.symm)
      rw [List.filter_cons_of_pos (by simp [hk]), List.lookup_cons, hj, ih]

end Lookup

namespace Ledger

variable {g g' : Ledger} {i j : Nat}

/-- A chunk is being fetched exactly while it has a flight. -/
theorem state_eq_fetching_iff : g.state i = .fetching ↔
    i < g.chunkCount ∧ ∃ flight, g.flight? i = some flight := by
  unfold state stateWithin
  by_cases hi : i < g.chunkCount
  · rw [if_pos hi]
    cases g.flight? i with
    | some flight => exact ⟨fun _ => ⟨hi, flight, rfl⟩, fun _ => rfl⟩
    | none => cases g.present.get i <;> cases g.valid.get i <;> simp
  · rw [if_neg hi]
    exact ⟨(nomatch ·), fun h => absurd h.1 hi⟩

theorem state_ne_fetching (h : g.flight? i = none) : g.state i ≠ .fetching := by
  intro hs
  obtain ⟨-, flight, hflight⟩ := state_eq_fetching_iff.1 hs
  rw [h] at hflight
  cases hflight

theorem state_ne_fetching_of_idle (h : g.inFlight = []) (i : Nat) : g.state i ≠ .fetching := by
  refine state_ne_fetching ?_
  unfold flight?
  rw [h]
  rfl

theorem flight?_eq_none (hi : i < g.chunkCount) (h : g.state i ≠ .fetching) :
    g.flight? i = none := by
  cases hf : g.flight? i with
  | none => rfl
  | some flight => exact absurd (state_eq_fetching_iff.2 ⟨hi, flight, hf⟩) h

/-- A chunk is verified if a good verdict exists and nobody is fetching it. -/
theorem state_eq_verified_iff : g.state i = .verified ↔
    i < g.chunkCount ∧ g.flight? i = none ∧ g.present.get i = true ∧ g.valid.get i = true := by
  unfold state stateWithin
  by_cases hi : i < g.chunkCount
  · rw [if_pos hi]
    cases g.flight? i with
    | some flight => simp
    | none => cases g.present.get i <;> cases g.valid.get i <;> simp [hi]
  · rw [if_neg hi]
    exact ⟨(nomatch ·), fun h => absurd h.1 hi⟩

theorem state_empty_ne_verified (n i : Nat) : (empty n).state i ≠ .verified := by
  intro h
  obtain ⟨-, -, hpresent, -⟩ := state_eq_verified_iff.1 h
  have hzero : (empty n).present.get i = false := Bits.get_zeros n i
  rw [hzero] at hpresent
  cases hpresent

/-- The state of a chunk depends on its flight and its two bits. -/
theorem state_congr (hc : g'.chunkCount = g.chunkCount) (hf : g'.flight? i = g.flight? i)
    (hp : g'.present.get i = g.present.get i) (hv : g'.valid.get i = g.valid.get i) :
    g'.state i = g.state i := by
  unfold state stateWithin
  rw [hf, hp, hv]
  simp only [hc]

/-! ### Taking off -/

/-- A caller becomes the owner of a chunk that is neither verified nor in
flight, and the ledger changes by the new flight only. -/
theorem claim_eq_owner {t : Ticket} (h : g.claim i = (.ok (.owner t), g')) :
    t = ⟨i⟩ ∧ i < g.chunkCount ∧ g.flight? i = none ∧ g.state i ≠ .verified ∧
      g' = g.depart i := by
  unfold claim at h
  split at h
  · rename_i hi
    split at h
    · cases h
    · rename_i hf
      split at h
      · cases h
      · rename_i hs
        cases h
        exact ⟨rfl, hi, hf, hs, rfl⟩
  · cases h

theorem claim_eq_verified (h : g.claim i = (.ok .verified, g')) :
    g' = g ∧ g.state i = .verified := by
  unfold claim at h
  split at h
  · split at h
    · cases h
    · split at h
      · rename_i hs
        cases h
        exact ⟨rfl, hs⟩
      · cases h
  · cases h

theorem claim_eq_inFlight {flight : FlightId} (h : g.claim i = (.ok (.inFlight flight), g')) :
    g' = g ∧ g.flight? i = some flight := by
  unfold claim at h
  split at h
  · split at h
    · rename_i hf
      cases h
      exact ⟨rfl, hf⟩
    · split at h <;> cases h
  · cases h

/-- Who is told to wait for a chunk waits for a chunk in flight. -/
theorem fetching_of_claim {flight : FlightId} (h : g.claim i = (.ok (.inFlight flight), g')) :
    g.state i = .fetching := by
  obtain ⟨-, hf⟩ := claim_eq_inFlight h
  refine state_eq_fetching_iff.2 ⟨Nat.lt_of_not_le fun hge => ?_, flight, hf⟩
  unfold claim at h
  rw [if_neg (Nat.not_lt.2 hge)] at h
  cases h

theorem claim_eq_error {e : Error} (h : g.claim i = (.error e, g')) : g' = g := by
  unfold claim at h
  split at h
  · split at h
    · cases h
    · split at h <;> cases h
  · cases h
    rfl

theorem claim_of_verified (h : g.state i = .verified) : (g.claim i).1 = .ok .verified := by
  obtain ⟨hi, hf, -⟩ := state_eq_verified_iff.1 h
  unfold claim
  rw [if_pos hi, hf, if_pos h]

/-- The chunks that a caller can become the owner of. -/
theorem claim_owner_iff : (∃ t, (g.claim i).1 = .ok (.owner t)) ↔
    i < g.chunkCount ∧ g.state i ≠ .fetching ∧ g.state i ≠ .verified := by
  constructor
  · rintro ⟨t, ht⟩
    have heq : g.claim i = (.ok (.owner t), (g.claim i).2) := by rw [← ht]
    obtain ⟨-, hi, hf, hs, -⟩ := claim_eq_owner heq
    exact ⟨hi, state_ne_fetching hf, hs⟩
  · rintro ⟨hi, hfetching, hs⟩
    refine ⟨⟨i⟩, ?_⟩
    unfold claim
    rw [if_pos hi, flight?_eq_none hi hfetching, if_neg hs]

/-- A chunk is not taken without a ticket unless it could be had with one. -/
theorem markFetching_cases : (g.markFetching i).2 = g ∨
    (i < g.chunkCount ∧ g.flight? i = none ∧ g.state i ≠ .verified ∧
      (g.markFetching i).2 = g.depart i) := by
  unfold markFetching
  by_cases hi : i < g.chunkCount
  · rw [if_pos hi]
    cases hs : g.state i with
    | absent => exact .inr ⟨hi, flight?_eq_none hi (by rw [hs]; decide), by decide, rfl⟩
    | invalid => exact .inr ⟨hi, flight?_eq_none hi (by rw [hs]; decide), by decide, rfl⟩
    | fetching => exact .inl rfl
    | verified => exact .inl rfl
  · rw [if_neg hi]
    exact .inl rfl

theorem flight?_depart : (g.depart i).flight? j =
    if j = i then some g.flights.length else g.flight? j := by
  unfold flight? depart
  rw [List.lookup_cons]
  by_cases h : j = i
  · rw [if_pos h, h, beq_self_eq_true]
  · rw [if_neg h, beq_false_of_ne h]

/-- Taking off changes the state of one chunk. -/
theorem state_depart (hi : i < g.chunkCount) (j : Nat) :
    (g.depart i).state j = if j = i then .fetching else g.state j := by
  by_cases h : j = i
  · rw [if_pos h, state_eq_fetching_iff, h]
    exact ⟨hi, _, by rw [flight?_depart, if_pos rfl]⟩
  · rw [if_neg h]
    exact state_congr rfl (by rw [flight?_depart, if_neg h]) rfl rfl

/-! ### Settling -/

theorem settle_of_fetching (h : g.state i = .fetching) (o : Outcome) :
    (g.settle i o).1 = .ok () := by
  obtain ⟨hi, flight, hf⟩ := state_eq_fetching_iff.1 h
  unfold settle
  rw [if_pos hi, hf]

/-- What is not in flight cannot be settled. -/
theorem settle_of_ne_fetching (h : g.state i ≠ .fetching) (o : Outcome) :
    (g.settle i o).2 = g := by
  unfold settle
  by_cases hi : i < g.chunkCount
  · rw [if_pos hi, flight?_eq_none hi h]
  · rw [if_neg hi]

@[simp] theorem settle_path (o : Outcome) : (g.settle i o).2.path = g.path := by
  unfold settle
  split
  · split <;> rfl
  · rfl

theorem settle_chunkCount {o : Outcome} : (g.settle i o).2.chunkCount = g.chunkCount := by
  unfold settle
  split
  · split <;> rfl
  · rfl

theorem settle_inFlight (h : g.state i = .fetching) (o : Outcome) :
    (g.settle i o).2.inFlight = g.inFlight.filter fun e => e.1 != i := by
  obtain ⟨hi, flight, hf⟩ := state_eq_fetching_iff.1 h
  unfold settle
  rw [if_pos hi, hf]

/-- Settling a chunk removes its entry and no other. -/
theorem flight?_settle (h : g.state i = .fetching) (o : Outcome) :
    (g.settle i o).2.flight? j = if j = i then none else g.flight? j := by
  unfold flight?
  rw [settle_inFlight h]
  by_cases hj : j = i
  · rw [if_pos hj, hj, lookup_filter_self]
  · rw [if_neg hj, lookup_filter_ne _ hj]

/-- Settling a chunk publishes its flight and no other. -/
theorem settle_flights {flight : FlightId} (hi : i < g.chunkCount) (hf : g.flight? i = some flight)
    (o : Outcome) : (g.settle i o).2.flights = g.flights.set flight (some o) := by
  unfold settle
  rw [if_pos hi, hf]

/-- Settling gives the chunk the state that goes with the outcome, and leaves
the others alone. -/
theorem state_settle (h : g.state i = .fetching) (o : Outcome) (j : Nat) :
    (g.settle i o).2.state j = if j = i then stateAfter o else g.state j := by
  obtain ⟨hi, flight, hf⟩ := state_eq_fetching_iff.1 h
  unfold settle
  rw [if_pos hi, hf]
  by_cases hj : j = i
  · have hnone := lookup_filter_self g.inFlight i
    rw [if_pos hj, hj]
    unfold state stateWithin flight?
    simp only [hi, if_true, hnone, Bits.get_set _ hi]
    cases o <;> rfl
  · rw [if_neg hj]
    refine state_congr rfl (lookup_filter_ne _ hj) ?_ ?_
    · simp only [Bits.get_set _ hi, if_neg hj]
    · simp only [Bits.get_set _ hi, if_neg hj]

/-- Writing down a failed attempt shows in no state while the chunk is in
flight. -/
theorem state_recordInvalid (h : g.state i = .fetching) (j : Nat) :
    (Ticket.recordInvalid ⟨i⟩ g).state j = g.state j := by
  obtain ⟨hi, flight, hf⟩ := state_eq_fetching_iff.1 h
  by_cases hj : j = i
  · have hflight : (Ticket.recordInvalid ⟨i⟩ g).flight? i = some flight := hf
    rw [hj, h]
    exact state_eq_fetching_iff.2 ⟨hi, flight, hflight⟩
  · refine state_congr rfl rfl ?_ ?_
    · simp only [Ticket.recordInvalid, Bits.get_set _ hi, if_neg hj]
    · simp only [Ticket.recordInvalid, Bits.get_set _ hi, if_neg hj]

/-- A failed attempt that is written down once the chunk has landed is a verdict. -/
theorem state_recordInvalid_of_ne (hi : i < g.chunkCount) (h : g.state i ≠ .fetching) (j : Nat) :
    (Ticket.recordInvalid ⟨i⟩ g).state j = if j = i then .invalid else g.state j := by
  by_cases hj : j = i
  · rw [if_pos hj, hj]
    have hflight : (Ticket.recordInvalid ⟨i⟩ g).flight? i = none :=
      flight?_eq_none (g := g) hi h
    unfold state stateWithin
    rw [hflight]
    simp [Ticket.recordInvalid, hi, Bits.get_set _ hi]
  · rw [if_neg hj]
    refine state_congr rfl rfl ?_ ?_
    · simp only [Ticket.recordInvalid, Bits.get_set _ hi, if_neg hj]
    · simp only [Ticket.recordInvalid, Bits.get_set _ hi, if_neg hj]

/-! ### Taking a verdict back -/

theorem demote_of_verified (h : g.state i = .verified) :
    g.demote i = (true, { g with valid := g.valid.set i false }) := by
  unfold demote
  rw [if_pos h]

theorem demote_of_ne_verified (h : g.state i ≠ .verified) : g.demote i = (false, g) := by
  unfold demote
  rw [if_neg h]

@[simp] theorem demote_path : (g.demote i).2.path = g.path := by
  unfold demote
  split <;> rfl

theorem demote_chunkCount : (g.demote i).2.chunkCount = g.chunkCount := by
  unfold demote
  split <;> rfl

@[simp] theorem demote_inFlight : (g.demote i).2.inFlight = g.inFlight := by
  unfold demote
  split <;> rfl

theorem demote_flights : (g.demote i).2.flights = g.flights := by
  unfold demote
  split <;> rfl

/-- A verified chunk becomes invalid, and the others stay what they are. -/
theorem state_demote (h : g.state i = .verified) (j : Nat) :
    (g.demote i).2.state j = if j = i then .invalid else g.state j := by
  obtain ⟨hi, hf, hp, -⟩ := state_eq_verified_iff.1 h
  unfold demote
  rw [if_pos h]
  by_cases hj : j = i
  · rw [if_pos hj, hj]
    have hflight : { g with valid := g.valid.set i false }.flight? i = none := hf
    unfold state stateWithin
    simp only [hi, if_true, hflight, hp, Bits.get_set _ hi]
    rfl
  · rw [if_neg hj]
    exact state_congr rfl rfl rfl (by simp only [Bits.get_set _ hi, if_neg hj])

theorem state_demote_any (g : Ledger) (i j : Nat) : (g.demote i).2.state j =
    if j = i ∧ g.state i = .verified then .invalid else g.state j := by
  by_cases hv : g.state i = .verified
  · rw [state_demote hv]
    simp only [hv, and_true]
  · rw [demote_of_ne_verified hv]
    simp only [hv, and_false, if_false]

theorem verified_of_demote (h : (g.demote i).2.state j = .verified) : g.state j = .verified := by
  rw [state_demote_any] at h
  split at h
  · cases h
  · exact h

/-- Nothing takes off when a verdict is taken back. -/
theorem state_demote_ne_fetching (h : g.state j ≠ .fetching) :
    (g.demote i).2.state j ≠ .fetching := by
  rw [state_demote_any]
  split
  · decide
  · exact h

end Ledger
end VerifiedCopy
