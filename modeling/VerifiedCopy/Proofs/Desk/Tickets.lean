/-
# Tickets and the states of chunks

A chunk goes from one state to another along five edges (`ChunkState.Next`), by
whatever calls it is moved and in whatever order these come. The good verdict is
meant to be taken back by `demote` alone. It is also lost if a failed attempt is
written down with a ticket whose chunk was marked as verified meanwhile
(`verified_lost_without_demote`), and in no other way (`state_changes`).

Among callers who do not use marks, a ticket is out for each chunk that is being
fetched and for no other (`Exclusive`), so no ticket outlives the fetch it was given
out for. From this follows what callers rely on: one fetch of a chunk at a time,
settled by its owner without a refusal, and none after it was good
(`one_ticket_per_fetch`).

Key definitions: `ChunkState.Next`, `Known`, `Exclusive`.
Key theorems: `Effect.state`, `Effect.exclusive`, `state_changes`,
`one_ticket_per_fetch`.
-/
import VerifiedCopy.Proofs.Desk

namespace VerifiedCopy

/-- The edges that a chunk moves along. -/
inductive ChunkState.Next : ChunkState → ChunkState → Prop
  | takeOff : Next absent fetching
  | takeOffAgain : Next invalid fetching
  | accept : Next fetching verified
  | reject : Next fetching invalid
  | takeBack : Next verified invalid

theorem ChunkState.Next.ne_absent {s s' : ChunkState} (h : s.Next s') : s' ≠ .absent := by
  cases h <;> decide

open ChunkState (Next)

namespace Ledger

variable {g : Ledger} {i : Nat}

theorem next_depart (hf : g.flight? i = none) (hs : g.state i ≠ .verified) :
    (g.state i).Next .fetching := by
  have hidle := state_ne_fetching hf
  cases h : g.state i with
  | absent => exact .takeOff
  | invalid => exact .takeOffAgain
  | fetching => exact absurd h hidle
  | verified => exact absurd h hs

theorem next_settle (o : Outcome) : Next .fetching (stateAfter o) := by
  cases o with
  | ok u => exact .accept
  | error e => exact .reject

/-- A chunk that does not exist is absent. -/
theorem state_eq_absent_of_ge (h : g.chunkCount ≤ i) : g.state i = .absent := by
  unfold state
  rw [if_neg (Nat.not_lt.2 h)]

end Ledger

namespace Desk

variable {d d' : Desk} {c : Call} {i : Nat}

/-! ### The graph of states -/

/-- Each ticket that is out is for a chunk that has been in flight. -/
def Known (d : Desk) : Prop :=
  ∀ t ∈ d.tickets, d.ledger.state t.index ≠ .absent

/-- If one chunk changes, the others stay where they are. -/
theorem moves_of_ite {i j : Nat} {s s' t : ChunkState} {p : Prop}
    (hs' : s' = if i = j then t else s) (hmove : i = j → t = s ∨ s.Next t ∧ p) :
    s' = s ∨ s.Next s' ∧ p := by
  by_cases hij : i = j
  · rw [hs', if_pos hij]
    exact hmove hij
  · rw [hs', if_neg hij]
    exact .inl rfl

/-- A call moves a chunk along one edge or leaves it where it is; and a good
verdict is lost only if it is taken back, or if a failed attempt is written down. -/
theorem Effect.state (h : Effect d c d') (hk : d.Known) (i : Nat) :
    d'.ledger.state i = d.ledger.state i ∨
      (d.ledger.state i).Next (d'.ledger.state i) ∧
        (d.ledger.state i = .verified →
          c = .demote i ∨ c = .recordInvalid ⟨i⟩ ∧ ⟨i⟩ ∈ d.tickets) := by
  cases h with
  | idle | expired => exact .inl rfl
  | claimed hj hf hs | started hj hf hs =>
    refine moves_of_ite (Ledger.state_depart hj i) fun hij => ?_
    rw [hij]
    exact .inr ⟨Ledger.next_depart hf hs, fun hv => absurd hv hs⟩
  | @marked _ j o _ _ hs | @settled _ j o _ _ hs =>
    refine moves_of_ite (Ledger.state_settle hs o i) fun hij => ?_
    rw [hij, hs]
    exact .inr ⟨Ledger.next_settle o, fun hv => nomatch hv⟩
  | @demoted j hs =>
    refine moves_of_ite (Ledger.state_demote hs i) fun hij => ?_
    rw [hij, hs]
    exact .inr ⟨.takeBack, fun _ => .inl rfl⟩
  | @recorded j ht =>
    by_cases hs : d.ledger.state j = .fetching
    · exact .inl (Ledger.state_recordInvalid hs i)
    · -- the ticket is stale: its chunk was in flight, and has landed
      have hne := hk _ ht
      have hj : j < d.ledger.chunkCount :=
        Nat.lt_of_not_le fun hge => hne (Ledger.state_eq_absent_of_ge hge)
      refine moves_of_ite (Ledger.state_recordInvalid_of_ne hj hs i) fun hij => ?_
      rw [hij]
      cases hst : d.ledger.state j with
      | absent => exact absurd hst hne
      | fetching => exact absurd hst hs
      | invalid => exact .inl rfl
      | verified => exact .inr ⟨.takeBack, fun _ => .inr ⟨rfl, ht⟩⟩

theorem Effect.mem_tickets (h : Effect d c d') {t : Ticket} (ht : t ∈ d'.tickets) :
    t ∈ d.tickets ∨ d'.ledger.state t.index = .fetching := by
  cases h with
  | idle | started | marked | demoted | recorded => exact .inl ht
  | settled | expired => exact .inl (List.mem_of_mem_erase ht)
  | @claimed i hi hf hs =>
    rcases List.mem_cons.1 ht with rfl | ht
    · right
      show (d.ledger.depart i).state i = .fetching
      rw [Ledger.state_depart hi, if_pos rfl]
    · exact .inl ht

theorem Effect.known (h : Effect d c d') (hk : d.Known) : d'.Known := by
  intro t ht
  rcases h.mem_tickets ht with ht | hs
  · rcases h.state hk t.index with hs | ⟨hnext, -⟩
    · rw [hs]
      exact hk t ht
    · exact hnext.ne_absent
  · rw [hs]
    decide

theorem run_known (calls : List Call) (hk : d.Known) : (d.run calls).Known :=
  run_induction (fun _ _ _ _ h => h.known) hk

/-! ### One ticket for each fetch -/

/-- A ticket is out for each chunk that is being fetched, and none for any other. -/
def Exclusive (d : Desk) : Prop :=
  ∀ i, d.tickets.count ⟨i⟩ = if d.ledger.state i = .fetching then 1 else 0

theorem Exclusive.mem_iff (h : d.Exclusive) : ⟨i⟩ ∈ d.tickets ↔ d.ledger.state i = .fetching := by
  have hcount := h i
  rw [← List.count_pos_iff, hcount]
  by_cases hs : d.ledger.state i = .fetching
  · simp [hs]
  · simp [hs]

theorem Exclusive.known (h : d.Exclusive) : d.Known := by
  intro t ht
  rw [h.mem_iff.1 ht]
  decide

theorem count_ticket_cons (ts : List Ticket) (i j : Nat) :
    (⟨i⟩ :: ts : List Ticket).count ⟨j⟩ = ts.count ⟨j⟩ + if j = i then 1 else 0 := by
  rw [List.count_cons]
  by_cases hij : j = i
  · simp [hij]
  · have hne : ¬ i = j := fun h => hij h.symm
    simp [hij, hne]

theorem count_ticket_erase (ts : List Ticket) (i j : Nat) :
    (ts.erase ⟨i⟩).count ⟨j⟩ = ts.count ⟨j⟩ - if j = i then 1 else 0 := by
  rw [List.count_erase]
  by_cases hij : j = i
  · simp [hij]
  · have hne : ¬ i = j := fun h => hij h.symm
    simp [hij, hne]

/-- Calls without marks give a ticket out with each fetch that they begin, and use
one up with each that they end. -/
theorem Effect.exclusive (h : Effect d c d') (hx : d.Exclusive) (hm : c.isMark = false) :
    d'.Exclusive := by
  intro j
  have hcount := hx j
  cases h with
  | idle => exact hcount
  | started => cases hm
  | marked _ hmark => rw [hmark] at hm; cases hm
  | @claimed i hi hf hs =>
    have hidle := Ledger.state_ne_fetching hf
    show (⟨i⟩ :: d.tickets : List Ticket).count ⟨j⟩ =
      if (d.ledger.depart i).state j = _ then 1 else 0
    rw [count_ticket_cons, Ledger.state_depart hi, hcount]
    by_cases hij : j = i
    · simp [hij, hidle]
    · simp [hij]
  | @settled _ i o _ ht hs =>
    show (d.tickets.erase ⟨i⟩).count ⟨j⟩ = if (d.ledger.settle i o).2.state j = _ then 1 else 0
    rw [count_ticket_erase, Ledger.state_settle hs, hcount]
    by_cases hij : j = i
    · cases o <;> simp [hij, hs, Ledger.stateAfter]
    · simp [hij]
  | expired _ ht hs => exact absurd (hx.mem_iff.1 ht) hs
  | @demoted i hs =>
    show d.tickets.count ⟨j⟩ = if (d.ledger.demote i).2.state j = _ then 1 else 0
    rw [Ledger.state_demote hs, hcount]
    by_cases hij : j = i
    · simp [hij, hs]
    · simp [hij]
  | @recorded i ht =>
    show d.tickets.count ⟨j⟩ = if (Ticket.recordInvalid ⟨i⟩ d.ledger).state j = _ then 1 else 0
    rw [Ledger.state_recordInvalid (hx.mem_iff.1 ht), hcount]

theorem run_exclusive {calls : List Call} (hx : d.Exclusive)
    (hm : ∀ c ∈ calls, c.isMark = false) : (d.run calls).Exclusive :=
  run_induction (fun c hc _ _ h hx => h.exclusive hx (hm c hc)) hx

/-- While marks are not used, a good verdict is lost only if it is taken back. -/
theorem Effect.verified (h : Effect d c d') (hx : d.Exclusive)
    (hv : d.ledger.state i = .verified) (hc : c ≠ .demote i) : d'.ledger.state i = .verified := by
  rcases h.state hx.known i with hs | ⟨-, hlost⟩
  · rw [hs, hv]
  · rcases hlost hv with hdemote | ⟨-, ht⟩
    · exact absurd hdemote hc
    · rw [hx.mem_iff.1 ht] at hv
      cases hv

theorem state_carryOut_verified (ht : ⟨i⟩ ∈ d.tickets) (hs : d.ledger.state i = .fetching) :
    (d.carryOut (.verified ⟨i⟩)).ledger.state i = .verified := by
  have hpermits : d.Permits (.verified ⟨i⟩) := by
    intro t ht'
    cases ht'
    exact ht
  rw [carryOut_of_permits hpermits]
  show (d.ledger.settle i (.ok ())).2.state i = .verified
  rw [Ledger.state_settle hs, if_pos rfl, Ledger.stateAfter]

/-- A verified chunk stays so until `demote` says that it took the verdict back. -/
theorem run_verified {calls : List Call} (hx : d.Exclusive) (hm : ∀ c ∈ calls, c.isMark = false)
    (hv : d.ledger.state i = .verified)
    (hkeep : ∀ before behind, calls = before ++ .demote i :: behind →
      ((d.run before).ledger.demote i).1 = false) :
    (d.run calls).ledger.state i = .verified := by
  induction calls generalizing d with
  | nil => exact hv
  | cons c cs ih =>
    -- a `demote` that comes first would find the good verdict and say so
    have hc : c ≠ .demote i := by
      rintro rfl
      have htrue : (d.ledger.demote i).1 = true := by rw [Ledger.demote_of_verified hv]
      have hfalse := hkeep [] cs rfl
      exact Bool.noConfusion (htrue.symm.trans hfalse)
    have heffect := d.carryOut_effect c
    have hx' := heffect.exclusive hx (hm c List.mem_cons_self)
    have hm' : ∀ c' ∈ cs, c'.isMark = false := fun c' hc' => hm c' (List.mem_cons_of_mem _ hc')
    apply ih hx' hm' (heffect.verified hx hv hc)
    intro before behind heq
    have hsplit : c :: cs = (c :: before) ++ .demote i :: behind := by rw [heq, List.cons_append]
    exact hkeep (c :: before) behind hsplit

end Desk

/-! ### From a fresh ledger on -/

namespace Ledger

open Desk (Call Known Exclusive)

variable {g : Ledger}

theorem exclusive_of_fresh (hg : g.Fresh) : Exclusive ⟨g, []⟩ := by
  intro i
  have hidle := state_ne_fetching (hg.flight? i)
  show ([] : List Ticket).count ⟨i⟩ = if g.state i = .fetching then 1 else 0
  rw [if_neg hidle, List.count_nil]

/-- Whatever is called in whatever order, a call moves a chunk along one of the
five edges or leaves it where it is. The good verdict is lost to `demote`, or else to
a failed attempt that is written down with a ticket which marks have made stale. -/
theorem state_changes (hg : g.Fresh) (calls : List Call) (c : Call) (i : Nat)
    {s s' : ChunkState} (hs : (g.after calls).ledger.state i = s)
    (hs' : (g.after (calls ++ [c])).ledger.state i = s') :
    s' = s ∨ s.Next s' ∧ (s = .verified → c = .demote i ∨
      c = .recordInvalid ⟨i⟩ ∧ ⟨i⟩ ∈ (g.after calls).tickets ∧ ∃ m ∈ calls, m.isMark = true) := by
  rw [after_concat] at hs'
  have hstart := exclusive_of_fresh hg
  have hknown : (g.after calls).Known := Desk.run_known calls hstart.known
  have hstep := ((g.after calls).carryOut_effect c).state hknown i
  rw [hs, hs'] at hstep
  rcases hstep with hsame | ⟨hnext, hlost⟩
  · exact .inl hsame
  · refine .inr ⟨hnext, fun hv => ?_⟩
    rcases hlost hv with hdemote | ⟨hrecord, ht⟩
    · exact .inl hdemote
    · refine .inr ⟨hrecord, ht, ?_⟩
      -- if nobody had used a mark, the chunk of the ticket would still be in flight
      refine Classical.byContradiction fun hnone => ?_
      have hm : ∀ m ∈ calls, m.isMark = false := fun m hmem =>
        Bool.eq_false_iff.2 fun htrue => hnone ⟨m, hmem, htrue⟩
      have hexclusive : (g.after calls).Exclusive := Desk.run_exclusive hstart hm
      rw [hexclusive.mem_iff.1 ht] at hs
      rw [← hs] at hv
      cases hv

/-- A chunk is marked as verified while a ticket for it is out, and the ticket is
used to write a failed attempt down. -/
theorem state_changes_stale_ticket :
    (empty 1).Fresh ∧
      ((empty 1).after [.claim 0, .markVerified 0]).ledger.state 0 = .verified ∧
      ((empty 1).after [.claim 0, .markVerified 0, .recordInvalid ⟨0⟩]).ledger.state 0 = .invalid ∧
      ⟨0⟩ ∈ ((empty 1).after [.claim 0, .markVerified 0]).tickets := by
  have hg : (empty 1).Fresh := .inl ⟨1, rfl⟩
  have hs : ((empty 1).after [.claim 0, .markVerified 0]).ledger.state 0 = .verified := by decide
  have hs' : ((empty 1).after
      ([.claim 0, .markVerified 0] ++ [.recordInvalid ⟨0⟩])).ledger.state 0 = .invalid := by decide
  refine ⟨hg, hs, hs', ?_⟩
  rcases state_changes hg _ _ 0 hs hs' with hsame | ⟨-, hlost⟩
  · cases hsame
  · rcases hlost rfl with hdemote | ⟨-, ht, -⟩
    · cases hdemote
    · exact ht

/-- The same calls lose the good verdict on a chunk that nobody demotes. -/
theorem verified_lost_without_demote :
    ¬ ∀ g : Ledger, g.Fresh → ∀ (calls : List Call) (c : Call) (i : Nat) (s s' : ChunkState),
      (g.after calls).ledger.state i = s → (g.after (calls ++ [c])).ledger.state i = s' →
        s' = s ∨ s.Next s' ∧ (s = .verified → c = .demote i) := by
  intro h
  have hlost := h (empty 1) (.inl ⟨1, rfl⟩) [.claim 0, .markVerified 0] (.recordInvalid ⟨0⟩) 0
    .verified .invalid (by decide) (by decide)
  rcases hlost with hsame | ⟨-, hdemote⟩
  · cases hsame
  · cases hdemote rfl

/-- Among callers without marks, a chunk is being fetched exactly while one ticket
for it is out, and a ticket is given out if there is none and the chunk is not
verified. Its holder settles it without a refusal, and once it is settled as good,
nobody gets another until `demote` says that it took the verdict back. -/
theorem one_ticket_per_fetch (hg : g.Fresh) {calls : List Call}
    (hm : ∀ c ∈ calls, c.isMark = false) (i : Nat) :
    ((g.after calls).tickets.count ⟨i⟩ =
      if (g.after calls).ledger.state i = .fetching then 1 else 0) ∧
    ((∃ t, ((g.after calls).ledger.claim i).1 = .ok (.owner t)) ↔
      i < g.chunkCount ∧ ⟨i⟩ ∉ (g.after calls).tickets ∧
        (g.after calls).ledger.state i ≠ .verified) ∧
    (⟨i⟩ ∈ (g.after calls).tickets →
      (Ticket.verified ⟨i⟩ (g.after calls).ledger).1 = .ok () ∧
      (∀ e, (Ticket.failed ⟨i⟩ e (g.after calls).ledger).1 = .ok ()) ∧
      ∀ later : List Call, (∀ c ∈ later, c.isMark = false) →
        (∀ before behind, later = before ++ .demote i :: behind →
          ((g.after (calls ++ .verified ⟨i⟩ :: before)).ledger.demote i).1 = false) →
        ((g.after (calls ++ .verified ⟨i⟩ :: later)).ledger.claim i).1 = .ok .verified) := by
  have hx : (g.after calls).Exclusive := Desk.run_exclusive (exclusive_of_fresh hg) hm
  refine ⟨hx i, ?_, ?_⟩
  · rw [claim_owner_iff, after_chunkCount, hx.mem_iff]
  · intro ht
    have hs := hx.mem_iff.1 ht
    refine ⟨settle_of_fetching hs _, fun e => settle_of_fetching hs _, ?_⟩
    intro later hlater hkeep
    have hx' := ((g.after calls).carryOut_effect (.verified ⟨i⟩)).exclusive hx rfl
    have hgood := Desk.state_carryOut_verified ht hs
    rw [after_append]
    apply claim_of_verified
    apply Desk.run_verified hx' hlater hgood
    intro before behind heq
    have hrefused := hkeep before behind heq
    rw [after_append] at hrefused
    exact hrefused

/-- Two callers want one chunk: the second one waits, and asks again when the
first one is done. -/
theorem one_ticket_per_fetch_two_callers :
    (empty 1).Fresh ∧ (∀ c ∈ [Call.claim 0, .claim 0], c.isMark = false) ∧
      ((empty 1).after [.claim 0, .claim 0]).tickets.count ⟨0⟩ = 1 ∧
      (¬ ∃ t, (((empty 1).after [.claim 0, .claim 0]).ledger.claim 0).1 = .ok (.owner t)) ∧
      (((empty 1).after [.claim 0, .claim 0, .verified ⟨0⟩, .claim 0]).ledger.claim 0).1 =
        .ok .verified := by
  have hg : (empty 1).Fresh := .inl ⟨1, rfl⟩
  have hm : ∀ c ∈ [Call.claim 0, .claim 0], c.isMark = false := by decide
  have ht : ⟨0⟩ ∈ ((empty 1).after [.claim 0, .claim 0]).tickets := by decide
  obtain ⟨hcount, howner, hlive⟩ := one_ticket_per_fetch hg hm 0
  obtain ⟨-, -, hlater⟩ := hlive ht
  refine ⟨hg, hm, hcount.trans (by decide), fun h => (howner.1 h).2.1 ht, ?_⟩
  refine hlater [.claim 0] (by decide) fun before behind heq => ?_
  match before with
  | [] => cases heq
  | [_] => cases heq
  | _ :: _ :: _ => cases heq

end Ledger
end VerifiedCopy
