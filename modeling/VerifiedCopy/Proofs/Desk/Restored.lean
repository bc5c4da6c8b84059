/-
# What a restored ledger depends on

A sidecar of `n` chunks holds two rows of bits in `n / 8` bytes each, rounded up, so
up to seven spare bits of each row belong to no chunk. They are kept as they are: a
ledger that was restored has the very bytes it came from as its snapshot. Nothing
else depends on them. Two ledgers that differ in spare bits only (`Alike`) give the
same answer to every call but `snapshot`, and are left alike by it
(`Desk.carryOut_alike`), so they are alike after any calls; and what is restored from
their snapshots then is alike again (`Alike.landed`).

A string of bytes that is not the sidecar of a ledger is refused with a format error
(`restore_refuses`).

Key definitions: `Alike`, `Desk.Answer`, `Desk.Call.answer`, `sidecarOf`.
Key theorems: `restore_refuses`, `exists_restore_iff`, `Desk.carryOut_alike`,
`restored_by_bits`.
-/
import VerifiedCopy.Proofs.Desk.Snapshots

namespace VerifiedCopy

/-- Whether the bytes hold the row is checked before they are taken. -/
theorem Sidecar.takeBits_refuses (n : Nat) (b : Bytes) : Sidecar.Refuses (takeBits n b) := by
  intro e he
  unfold takeBits at he
  split at he
  · cases he
  · cases he
    exact ⟨_, rfl⟩

/-! ### What is accepted -/

namespace Ledger

/-- The bytes of a sidecar of `n` chunks with the two rows of bits. -/
def sidecarOf (n : Nat) (present valid : Bytes) : Bytes :=
  Sidecar.withChecksum (Bytes.ofText "VFMRKL01" ++ [0] ++ Bytes.ofNatLE 4 1 ++ Bytes.ofNatLE 4 n
    ++ present ++ valid)

/-- What is not accepted is refused with a format error. -/
theorem restore_refuses (b : Bytes) : Sidecar.Refuses (restore b) := by
  unfold restore
  refine (Sidecar.checkedBody_refuses _ _ _).bind fun body _ => ?_
  refine (Sidecar.takeHeader_refuses _ _ _).bind fun rest _ => ?_
  refine (Sidecar.takeNat_refuses _ _).bind fun count _ => ?_
  refine (Sidecar.takeBits_refuses _ _).bind fun present _ => ?_
  refine (Sidecar.takeBits_refuses _ _).bind fun valid _ => ?_
  exact .check fun _ e he => nomatch he

/-- The sidecars that are accepted. -/
theorem exists_restore_iff {b : Bytes} : (∃ g, restore b = .ok g) ↔
    ∃ n present valid, n < UInt32.size ∧ present.length = bitBytes n ∧
      valid.length = bitBytes n ∧ b = sidecarOf n present valid := by
  constructor
  · rintro ⟨g, hg⟩
    obtain ⟨hb, hn, -⟩ := restore_eq_ok_iff.1 hg
    exact ⟨g.chunkCount, g.present.bytes, g.valid.bytes, hn, g.present.length_bytes,
      g.valid.length_bytes, hb⟩
  · rintro ⟨n, present, valid, hn, hpresent, hvalid, rfl⟩
    exact ⟨{ chunkCount := n, present := ⟨present, hpresent⟩, valid := ⟨valid, hvalid⟩ },
      restore_eq_ok_iff.2 ⟨rfl, hn, rfl, rfl, rfl⟩⟩

/-- A chunk of a restored ledger has the state that its two bits say. -/
theorem state_of_idle {g : Ledger} {i : Nat} (h : g.inFlight = []) (hi : i < g.chunkCount) :
    g.state i = if g.present.get i then (if g.valid.get i then .verified else .invalid)
      else .absent := by
  unfold state stateWithin flight?
  rw [if_pos hi, h]
  rfl

/-! ### Spare bits -/

/-- Two ledgers that differ in bits of no chunk only. -/
structure Alike (g g' : Ledger) : Prop where
  chunkCount : g'.chunkCount = g.chunkCount
  present : ∀ i < g.chunkCount, g'.present.get i = g.present.get i
  valid : ∀ i < g.chunkCount, g'.valid.get i = g.valid.get i
  inFlight : g'.inFlight = g.inFlight
  flights : g'.flights = g.flights

namespace Alike

variable {g g' : Ledger} (h : g.Alike g') (i : Nat)

include h

theorem flight? : g'.flight? i = g.flight? i := by
  unfold Ledger.flight?
  rw [h.inFlight]

/-- Chunks have the same states. -/
theorem state : g'.state i = g.state i := by
  by_cases hi : i < g.chunkCount
  · exact state_congr h.chunkCount (h.flight? i) (h.present i hi) (h.valid i hi)
  · have hge := Nat.not_lt.1 hi
    rw [state_eq_absent_of_ge hge, state_eq_absent_of_ge (h.chunkCount ▸ hge)]

theorem verifiedCount : g'.verifiedCount = g.verifiedCount := by
  unfold Ledger.verifiedCount
  simp only [h.chunkCount, h.state]

theorem missing : g'.missing = g.missing := by
  unfold Ledger.missing
  simp only [h.chunkCount, h.state]

theorem isComplete : g'.isComplete = g.isComplete := by
  unfold Ledger.isComplete
  rw [h.verifiedCount, h.chunkCount]

theorem verifiedBytes (l : Layout) : g'.verifiedBytes l = g.verifiedBytes l := by
  unfold Ledger.verifiedBytes
  simp only [h.chunkCount, h.state]

theorem outcome? (flight : FlightId) : g'.outcome? flight = g.outcome? flight := by
  unfold Ledger.outcome?
  rw [h.flights]

theorem outside : g'.outside i = g.outside i := by
  unfold Ledger.outside
  rw [h.chunkCount]

theorem landed : g.landed.Alike g'.landed :=
  ⟨h.chunkCount, h.present, h.valid, rfl, rfl⟩

theorem depart : (g.depart i).Alike (g'.depart i) where
  chunkCount := h.chunkCount
  present := h.present
  valid := h.valid
  inFlight := by
    unfold Ledger.depart
    rw [h.inFlight, h.flights]
  flights := by
    unfold Ledger.depart
    rw [h.flights]

/-- The bits that are set are the same ones. -/
theorem set {i : Nat} (hi : i < g.chunkCount) (on on' : Bool) :
    Alike { g with present := g.present.set i on, valid := g.valid.set i on' }
      { g' with present := g'.present.set i on, valid := g'.valid.set i on' } where
  chunkCount := h.chunkCount
  present j hj := by
    have hj' : g'.present.get j = g.present.get j := h.present j hj
    rw [Bits.get_set _ (h.chunkCount ▸ hi), Bits.get_set _ hi, hj']
  valid j hj := by
    have hj' : g'.valid.get j = g.valid.get j := h.valid j hj
    rw [Bits.get_set _ (h.chunkCount ▸ hi), Bits.get_set _ hi, hj']
  inFlight := h.inFlight
  flights := h.flights

theorem recordInvalid {t : Ticket} (ht : t.index < g.chunkCount) :
    (t.recordInvalid g).Alike (t.recordInvalid g') :=
  h.set ht true false

theorem claim : (g'.claim i).1 = (g.claim i).1 ∧ (g.claim i).2.Alike (g'.claim i).2 := by
  unfold Ledger.claim
  rw [h.chunkCount, h.flight?, h.state, h.outside]
  by_cases hi : i < g.chunkCount
  · rw [if_pos hi, if_pos hi]
    cases g.flight? i with
    | some flight => exact ⟨rfl, h⟩
    | none =>
      by_cases hs : g.state i = .verified
      · simp only [if_pos hs]
        exact ⟨trivial, h⟩
      · simp only [if_neg hs]
        exact ⟨trivial, h.depart i⟩
  · rw [if_neg hi, if_neg hi]
    exact ⟨rfl, h⟩

theorem markFetching : (g'.markFetching i).1 = (g.markFetching i).1 ∧
    (g.markFetching i).2.Alike (g'.markFetching i).2 := by
  unfold Ledger.markFetching
  rw [h.chunkCount, h.state, h.outside]
  by_cases hi : i < g.chunkCount
  · rw [if_pos hi, if_pos hi]
    cases g.state i with
    | absent | invalid => exact ⟨rfl, h.depart i⟩
    | fetching | verified => exact ⟨rfl, h⟩
  · rw [if_neg hi, if_neg hi]
    exact ⟨rfl, h⟩

theorem settle (o : Outcome) : (g'.settle i o).1 = (g.settle i o).1 ∧
    (g.settle i o).2.Alike (g'.settle i o).2 := by
  unfold Ledger.settle
  rw [h.flight?, h.state, h.outside]
  by_cases hi : i < g.chunkCount
  · have hi' : i < g'.chunkCount := h.chunkCount ▸ hi
    rw [if_pos hi, if_pos hi']
    cases g.flight? i with
    | none => exact ⟨rfl, h⟩
    | some flight =>
      have hset := h.set hi true o.isOk
      refine ⟨rfl, hset.chunkCount, hset.present, hset.valid, ?_, ?_⟩
      · simp only [h.inFlight]
      · simp only [h.flights]
  · have hi' : ¬ i < g'.chunkCount := h.chunkCount ▸ hi
    rw [if_neg hi, if_neg hi']
    exact ⟨rfl, h⟩

theorem demote : (g'.demote i).1 = (g.demote i).1 ∧ (g.demote i).2.Alike (g'.demote i).2 := by
  by_cases hs : g.state i = .verified
  · have hs' : g'.state i = .verified := by rw [h.state, hs]
    obtain ⟨hi, -⟩ := state_eq_verified_iff.1 hs
    have hi' : i < g'.chunkCount := h.chunkCount ▸ hi
    rw [demote_of_verified hs, demote_of_verified hs']
    refine ⟨rfl, h.chunkCount, h.present, fun j hj => ?_, h.inFlight, h.flights⟩
    have hj' : g'.valid.get j = g.valid.get j := h.valid j hj
    rw [Bits.get_set _ hi', Bits.get_set _ hi, hj']
  · have hs' : g'.state i ≠ .verified := by rw [h.state]; exact hs
    rw [demote_of_ne_verified hs, demote_of_ne_verified hs']
    exact ⟨rfl, h⟩

end Alike
end Ledger

/-! ### Calls -/

namespace Desk

/-- What a caller is told. -/
inductive Answer where
  | claim (r : Except Error Claim)
  | verdict (r : Except Error Unit)
  | demoted (b : Bool)
  | state (s : ChunkState)
  | bytes (b : Bytes)
  | nothing

/-- What is told of a call on the ledger `g`. -/
def Call.answer (g : Ledger) : Call → Answer
  | claim i => .claim (g.claim i).1
  | markFetching i => .verdict (g.markFetching i).1
  | markVerified i => .verdict (g.markVerified i).1
  | markInvalid i => .verdict (g.markInvalid i).1
  | demote i => .demoted (g.demote i).1
  | verified t => .verdict (t.verified g).1
  | failed t e => .verdict (t.failed e g).1
  | recordInvalid _ | drop _ => .nothing
  | get i => .state (g.state i)
  | snapshot => .bytes g.snapshot

variable {g g' : Ledger} {d d' : Desk} {calls : List Call} {c : Call}

/-- The same call is answered alike, but for the bytes of a snapshot. -/
theorem answer_alike (h : g.Alike g') (hc : c ≠ .snapshot) : c.answer g' = c.answer g := by
  cases c with
  | claim i => exact congrArg Answer.claim (h.claim i).1
  | markFetching i => exact congrArg Answer.verdict (h.markFetching i).1
  | markVerified i => exact congrArg Answer.verdict (h.settle i _).1
  | markInvalid i => exact congrArg Answer.verdict (h.settle i _).1
  | demote i => exact congrArg Answer.demoted (h.demote i).1
  | verified t => exact congrArg Answer.verdict (h.settle t.index _).1
  | failed t e => exact congrArg Answer.verdict (h.settle t.index _).1
  | recordInvalid t | drop t => rfl
  | get i => exact congrArg Answer.state (h.state i)
  | snapshot => exact absurd rfl hc

theorem onLedger_alike (h : g.Alike g')
    (ht : ∀ t, c.ticket? = some t → t.index < g.chunkCount) :
    (c.onLedger g).Alike (c.onLedger g') := by
  cases c with
  | claim i => exact (h.claim i).2
  | markFetching i => exact (h.markFetching i).2
  | markVerified i => exact (h.settle i _).2
  | markInvalid i => exact (h.settle i _).2
  | demote i => exact (h.demote i).2
  | recordInvalid t => exact h.recordInvalid (ht t rfl)
  | verified t => exact (h.settle t.index _).2
  | failed t e => exact (h.settle t.index _).2
  | drop t => exact (h.settle t.index _).2
  | get i | snapshot => exact h

theorem onTickets_alike (h : g.Alike g') (ts : List Ticket) :
    c.onTickets g' ts = c.onTickets g ts := by
  cases c with
  | claim i => simp only [Call.onTickets, (h.claim i).1]
  | markFetching | markVerified | markInvalid | demote | recordInvalid | verified | failed
  | drop | get | snapshot => rfl

/-- A call leaves two ledgers alike, and the same tickets out. -/
theorem carryOut_alike (h : d.ledger.Alike d'.ledger) (ht : d'.tickets = d.tickets)
    (hk : d.Known) (c : Call) : (d.carryOut c).ledger.Alike (d'.carryOut c).ledger ∧
      (d'.carryOut c).tickets = (d.carryOut c).tickets := by
  have hp : d'.Permits c ↔ d.Permits c := by
    unfold Permits
    rw [ht]
  by_cases hc : d.Permits c
  · rw [carryOut_of_permits hc, carryOut_of_permits (hp.2 hc)]
    refine ⟨onLedger_alike h fun t htk => hk.lt_chunkCount (hc t htk), ?_⟩
    simp only [ht, onTickets_alike h]
  · unfold carryOut
    rw [if_neg hc, if_neg (fun hc' => hc (hp.1 hc'))]
    exact ⟨h, ht⟩

/-- So do any calls. -/
theorem run_alike (h : d.ledger.Alike d'.ledger) (ht : d'.tickets = d.tickets) (hk : d.Known)
    (calls : List Call) : (d.run calls).ledger.Alike (d'.run calls).ledger ∧
      (d'.run calls).tickets = (d.run calls).tickets := by
  induction calls generalizing d d' with
  | nil => exact ⟨h, ht⟩
  | cons c cs ih =>
    obtain ⟨hfirst, htickets⟩ := carryOut_alike h ht hk c
    exact ih hfirst htickets ((d.carryOut_effect c).known hk)

end Desk

/-! ### From a sidecar on -/

namespace Ledger

open Desk (Call)

variable {g g' : Ledger} {b b' : Bytes}

/-- Two ledgers that are restored with the same bits for each chunk are alike. -/
theorem alike_of_restore (h : restore b = .ok g) (h' : restore b' = .ok g')
    (hcount : g'.chunkCount = g.chunkCount)
    (hbits : ∀ i < g.chunkCount,
      g'.present.get i = g.present.get i ∧ g'.valid.get i = g.valid.get i) : g.Alike g' := by
  obtain ⟨-, -, hidle, hflights, -⟩ := restore_eq_ok_iff.1 h
  obtain ⟨-, -, hidle', hflights', -⟩ := restore_eq_ok_iff.1 h'
  exact ⟨hcount, fun i hi => (hbits i hi).1, fun i hi => (hbits i hi).2,
    hidle'.trans hidle.symm, hflights'.trans hflights.symm⟩

theorem after_alike (h : g.Alike g') (hg : g.Fresh) (calls : List Call) :
    (g.after calls).ledger.Alike (g'.after calls).ledger ∧
      (g'.after calls).tickets = (g.after calls).tickets := by
  have hknown : (⟨g, []⟩ : Desk).Known := (exclusive_of_fresh hg).known
  have hlike : (⟨g', []⟩ : Desk).tickets = (⟨g, []⟩ : Desk).tickets := rfl
  exact Desk.run_alike h hlike hknown calls

/-- **The sidecar of a ledger.** Any string of bytes is accepted or refused with a format error. It
is accepted exactly if it is the sidecar of some number of chunks with two rows of bits; the ledger
has these rows, and its snapshot is the string itself. The state of each chunk is what its two bits
say. What a ledger answers, to begin with and after any calls, depends on the number of chunks and
on the bits of chunks only; the one exception is `snapshot`, which gives the spare bits back, and
what is restored from it is again alike. -/
theorem restored_by_bits (b : Bytes) :
    (∀ e, restore b = .error e → ∃ text, e = .format text) ∧
    ((∃ g, restore b = .ok g) ↔
      ∃ n present valid, n < UInt32.size ∧ present.length = (n + 7) / 8 ∧
        valid.length = (n + 7) / 8 ∧ b = sidecarOf n present valid) ∧
    ∀ g, restore b = .ok g →
      g.snapshot = b ∧ b = sidecarOf g.chunkCount g.present.bytes g.valid.bytes ∧
      (∀ i, (g.state i = .verified ↔
          i < g.chunkCount ∧ g.present.get i = true ∧ g.valid.get i = true) ∧
        (g.state i = .invalid ↔
          i < g.chunkCount ∧ g.present.get i = true ∧ g.valid.get i = false) ∧
        (g.state i = .absent ↔ g.chunkCount ≤ i ∨ g.present.get i = false) ∧
        (i < g.chunkCount → i / 8 < g.present.bytes.length ∧ i / 8 < g.valid.bytes.length)) ∧
      ∀ b' g', restore b' = .ok g' → g'.chunkCount = g.chunkCount →
        (∀ i < g.chunkCount,
          g'.present.get i = g.present.get i ∧ g'.valid.get i = g.valid.get i) →
        ∀ calls,
          (g'.after calls).tickets = (g.after calls).tickets ∧
          (∀ c : Call, c ≠ .snapshot →
            c.answer (g'.after calls).ledger = c.answer (g.after calls).ledger) ∧
          (∀ i, (g'.after calls).ledger.state i = (g.after calls).ledger.state i) ∧
          (g'.after calls).ledger.verifiedCount = (g.after calls).ledger.verifiedCount ∧
          (g'.after calls).ledger.missing = (g.after calls).ledger.missing ∧
          (g'.after calls).ledger.isComplete = (g.after calls).ledger.isComplete ∧
          (∀ l, (g'.after calls).ledger.verifiedBytes l = (g.after calls).ledger.verifiedBytes l) ∧
          (∀ flight, (g'.after calls).ledger.outcome? flight =
            (g.after calls).ledger.outcome? flight) ∧
          ∃ k k', restore (g.after calls).ledger.snapshot = .ok k ∧
            restore (g'.after calls).ledger.snapshot = .ok k' ∧ k.Alike k' := by
  refine ⟨restore_refuses b, exists_restore_iff, fun g hg => ?_⟩
  obtain ⟨hb, hlt, hidle, -⟩ := restore_eq_ok_iff.1 hg
  refine ⟨hb.symm, hb, fun i => ?_, fun b' g' hg' hcount hbits calls => ?_⟩
  · have hrange : i < g.chunkCount →
        i / 8 < g.present.bytes.length ∧ i / 8 < g.valid.bytes.length := by
      intro hi
      rw [g.present.length_bytes, g.valid.length_bytes, bitBytes]
      omega
    by_cases hi : i < g.chunkCount
    · have hle := Nat.not_le.2 hi
      rw [state_of_idle hidle hi]
      cases hp : g.present.get i <;> cases hv : g.valid.get i <;> simp [hi, hle, hrange hi]
    · have hge := Nat.not_lt.1 hi
      rw [state_eq_absent_of_ge hge]
      simp [hi, hge]
  · obtain ⟨halike, htickets⟩ :=
      after_alike (alike_of_restore hg hg' hcount hbits) (.inr ⟨b, hg⟩) calls
    have hcalls : (g.after calls).ledger.chunkCount < UInt32.size := by
      rw [g.after_chunkCount calls]
      exact hlt
    have hcalls' : (g'.after calls).ledger.chunkCount < UInt32.size := by
      rw [halike.chunkCount]
      exact hcalls
    exact ⟨htickets, fun c hc => Desk.answer_alike halike hc, halike.state, halike.verifiedCount,
      halike.missing, halike.isComplete, halike.verifiedBytes, halike.outcome?, _, _,
      restore_snapshot hcalls, restore_snapshot hcalls', halike.landed⟩

/-- A ledger with one good chunk. -/
def spareClear : Ledger :=
  { chunkCount := 1, present := .oneSet, valid := .oneSet }

/-- The same ledger with all its spare bits set. -/
def spareSet : Ledger :=
  { chunkCount := 1, present := ⟨[255], rfl⟩, valid := ⟨[255], rfl⟩ }

/-- The ledger with the spare bits set answers like the one without: here that it is complete, also
after the chunk was demoted and fetched again. -/
theorem restored_by_bits_spare :
    restore spareClear.snapshot = .ok spareClear ∧ restore spareSet.snapshot = .ok spareSet ∧
      spareClear.snapshot ≠ spareSet.snapshot ∧
      (spareSet.after [.demote 0, .claim 0, .verified ⟨0⟩]).ledger.isComplete = true := by
  have hclear : restore spareClear.snapshot = .ok spareClear :=
    restore_eq_ok_iff.2 ⟨rfl, by decide, rfl, rfl, rfl⟩
  have hset : restore spareSet.snapshot = .ok spareSet :=
    restore_eq_ok_iff.2 ⟨rfl, by decide, rfl, rfl, rfl⟩
  have hbits : ∀ i < spareClear.chunkCount, spareSet.present.get i = spareClear.present.get i ∧
      spareSet.valid.get i = spareClear.valid.get i := by decide
  obtain ⟨-, -, hok⟩ := restored_by_bits spareClear.snapshot
  obtain ⟨-, -, -, hlike⟩ := hok spareClear hclear
  obtain ⟨-, -, -, -, -, hcomplete, -⟩ := hlike _ _ hset rfl hbits
    [.demote 0, .claim 0, .verified ⟨0⟩]
  refine ⟨hclear, hset, by decide +kernel, ?_⟩
  rw [hcomplete]
  decide

end Ledger
end VerifiedCopy
