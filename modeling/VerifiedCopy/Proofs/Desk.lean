/-
# The desk where tickets are given out

A desk is a ledger with the tickets that are out on it. Any number of callers
stand before it, and each call works on the ledger under one lock, so what all of
them do is a list of calls, one behind the other (`Desk.run`). In whose hand a
ticket is makes no difference, and neither do two tickets of one chunk differ. A
call that is made with a ticket needs one that is out (`Desk.Permits`), and
`verified`, `failed` and `drop` use it up.

A chunk can also be taken and settled without a ticket, by marks. A ticket whose
chunk was settled meanwhile stays out, and can be used like any other.

What a call does is said once (`Effect`, `carryOut_effect`): it does nothing, or a
chunk takes off, is settled, is demoted, or gets a failed attempt written down.

Key definitions: `Desk`, `Desk.Call`, `Desk.run`, `Desk.Effect`, `Ledger.Fresh`.
Key theorems: `carryOut_effect`, `run_induction`.
-/
import VerifiedCopy.Proofs.Ledger
import VerifiedCopy.Proofs.Ledger.Snapshot

namespace VerifiedCopy

/-- A ledger as it is when its first caller comes: new, or restored from a
snapshot. -/
def Ledger.Fresh (g : Ledger) : Prop :=
  (∃ chunkCount, g = Ledger.empty chunkCount) ∨ ∃ b, Ledger.restore b = .ok g

/-- A ledger and the tickets that are out. -/
structure Desk where
  ledger : Ledger
  tickets : List Ticket := []

namespace Desk

/-- A call of somebody before the desk. -/
inductive Call where
  | claim (i : Nat)
  | markFetching (i : Nat)
  | markVerified (i : Nat)
  | markInvalid (i : Nat)
  | demote (i : Nat)
  | recordInvalid (t : Ticket)
  | verified (t : Ticket)
  | failed (t : Ticket) (e : Error)
  | drop (t : Ticket)
  | get (i : Nat)
  | snapshot
deriving DecidableEq

namespace Call

/-- The ticket that a call is made with. -/
def ticket? : Call → Option Ticket
  | recordInvalid t | verified t | failed t _ | drop t => some t
  | _ => none

/-- Whether a call takes or settles a chunk without a ticket. -/
def isMark : Call → Bool
  | markFetching _ | markVerified _ | markInvalid _ => true
  | _ => false

/-- The chunk that a call settles, and the outcome that it gives. -/
def verdict? : Call → Option (Nat × Outcome)
  | markVerified i => some (i, .ok ())
  | markInvalid i => some (i, .error (.chunkCorrupt i 1))
  | verified t => some (t.index, .ok ())
  | failed t e => some (t.index, .error e)
  | drop t => some (t.index, .error (.io s!"chunk {t.index}" "fetch abandoned"))
  | _ => none

/-- The ledger after a call. -/
def onLedger (g : Ledger) : Call → Ledger
  | claim i => (g.claim i).2
  | markFetching i => (g.markFetching i).2
  | markVerified i => (g.markVerified i).2
  | markInvalid i => (g.markInvalid i).2
  | demote i => (g.demote i).2
  | recordInvalid t => t.recordInvalid g
  | verified t => (t.verified g).2
  | failed t e => (t.failed e g).2
  | drop t => t.drop g
  | get _ | snapshot => g

/-- The tickets that are out after a call on the ledger `g`. -/
def onTickets (g : Ledger) (ts : List Ticket) : Call → List Ticket
  | claim i =>
    match (g.claim i).1 with
    | .ok (.owner t) => t :: ts
    | _ => ts
  | verified t | failed t _ | drop t => ts.erase t
  | _ => ts

end Call

/-- A call that is made with a ticket can be made while the ticket is out. -/
def Permits (d : Desk) (c : Call) : Prop :=
  ∀ t, c.ticket? = some t → t ∈ d.tickets

instance (d : Desk) (c : Call) : Decidable (d.Permits c) :=
  inferInstanceAs (Decidable (∀ t, c.ticket? = some t → t ∈ d.tickets))

/-- The desk after a call. A call that cannot be made changes nothing. -/
def carryOut (d : Desk) (c : Call) : Desk :=
  if d.Permits c then ⟨c.onLedger d.ledger, c.onTickets d.ledger d.tickets⟩ else d

/-- The desk after some calls. -/
def run (d : Desk) : List Call → Desk
  | [] => d
  | c :: cs => (d.carryOut c).run cs

theorem run_append (d : Desk) (cs cs' : List Call) : d.run (cs ++ cs') = (d.run cs).run cs' := by
  induction cs generalizing d with
  | nil => rfl
  | cons c cs ih => exact ih _

/-! ### What a call does -/

/-- All that a call can do to a desk. -/
inductive Effect (d : Desk) : Call → Desk → Prop
  /-- The call is refused, or it only looks. -/
  | idle {c : Call} (h : ∀ i o, c.verdict? = some (i, o) → d.Permits c →
      d.ledger.state i ≠ .fetching) : Effect d c d
  /-- A chunk takes off, and a ticket for it is given out. -/
  | claimed {i : Nat} (hi : i < d.ledger.chunkCount) (hf : d.ledger.flight? i = none)
      (hs : d.ledger.state i ≠ .verified) :
      Effect d (.claim i) ⟨d.ledger.depart i, ⟨i⟩ :: d.tickets⟩
  /-- A chunk takes off without a ticket. -/
  | started {i : Nat} (hi : i < d.ledger.chunkCount) (hf : d.ledger.flight? i = none)
      (hs : d.ledger.state i ≠ .verified) :
      Effect d (.markFetching i) ⟨d.ledger.depart i, d.tickets⟩
  /-- A chunk in flight is settled without a ticket. -/
  | marked {c : Call} {i : Nat} {o : Outcome} (hc : c.verdict? = some (i, o))
      (hm : c.isMark = true) (h : d.ledger.state i = .fetching) :
      Effect d c ⟨(d.ledger.settle i o).2, d.tickets⟩
  /-- A chunk in flight is settled, and a ticket for it is used up. -/
  | settled {c : Call} {i : Nat} {o : Outcome} (hc : c.verdict? = some (i, o))
      (ht : ⟨i⟩ ∈ d.tickets) (h : d.ledger.state i = .fetching) :
      Effect d c ⟨(d.ledger.settle i o).2, d.tickets.erase ⟨i⟩⟩
  /-- A ticket is used up that is good for nothing any more. -/
  | expired {c : Call} {i : Nat} {o : Outcome} (hc : c.verdict? = some (i, o))
      (ht : ⟨i⟩ ∈ d.tickets) (h : d.ledger.state i ≠ .fetching) :
      Effect d c ⟨d.ledger, d.tickets.erase ⟨i⟩⟩
  /-- The good verdict on a chunk is taken back. -/
  | demoted {i : Nat} (h : d.ledger.state i = .verified) :
      Effect d (.demote i) ⟨(d.ledger.demote i).2, d.tickets⟩
  /-- A failed attempt is written down. -/
  | recorded {i : Nat} (ht : ⟨i⟩ ∈ d.tickets) :
      Effect d (.recordInvalid ⟨i⟩) ⟨Ticket.recordInvalid ⟨i⟩ d.ledger, d.tickets⟩

variable {d : Desk} {c : Call} {i : Nat}

theorem carryOut_of_permits (h : d.Permits c) :
    d.carryOut c = ⟨c.onLedger d.ledger, c.onTickets d.ledger d.tickets⟩ :=
  if_pos h

/-- Using a ticket up settles its chunk if that is in flight. -/
theorem effect_useUp {o : Outcome} (hc : c.verdict? = some (i, o)) (ht : ⟨i⟩ ∈ d.tickets) :
    Effect d c ⟨(d.ledger.settle i o).2, d.tickets.erase ⟨i⟩⟩ := by
  by_cases h : d.ledger.state i = .fetching
  · exact .settled hc ht h
  · rw [Ledger.settle_of_ne_fetching h]
    exact .expired hc ht h

/-- A mark settles a chunk that is in flight, and is refused otherwise. -/
theorem effect_mark {o : Outcome} (hc : c.verdict? = some (i, o)) (hm : c.isMark = true) :
    Effect d c ⟨(d.ledger.settle i o).2, d.tickets⟩ := by
  by_cases h : d.ledger.state i = .fetching
  · exact .marked hc hm h
  · rw [Ledger.settle_of_ne_fetching h]
    refine .idle fun j o' hj _ => ?_
    rw [hc] at hj
    cases hj
    exact h

theorem effect_claim (d : Desk) (i : Nat) :
    Effect d (.claim i) ⟨(d.ledger.claim i).2, Call.onTickets d.ledger d.tickets (.claim i)⟩ := by
  have hidle : Effect d (.claim i) d := .idle fun j o hj => nomatch hj
  simp only [Call.onTickets]
  rcases hclaim : d.ledger.claim i with ⟨e | answer, g⟩
  · rw [Ledger.claim_eq_error hclaim]
    exact hidle
  · cases answer with
    | verified =>
      rw [(Ledger.claim_eq_verified hclaim).1]
      exact hidle
    | inFlight flight =>
      rw [(Ledger.claim_eq_inFlight hclaim).1]
      exact hidle
    | owner t =>
      obtain ⟨rfl, hi, hf, hs, rfl⟩ := Ledger.claim_eq_owner hclaim
      exact .claimed hi hf hs

theorem effect_markFetching (d : Desk) (i : Nat) :
    Effect d (.markFetching i) ⟨(d.ledger.markFetching i).2, d.tickets⟩ := by
  rcases Ledger.markFetching_cases (g := d.ledger) (i := i) with h | ⟨hi, hf, hs, h⟩
  · rw [h]
    exact .idle fun j o hj => nomatch hj
  · rw [h]
    exact .started hi hf hs

theorem effect_demote (d : Desk) (i : Nat) :
    Effect d (.demote i) ⟨(d.ledger.demote i).2, d.tickets⟩ := by
  by_cases h : d.ledger.state i = .verified
  · exact .demoted h
  · rw [Ledger.demote_of_ne_verified h]
    exact .idle fun j o hj => nomatch hj

/-- Every call does one of these things. -/
theorem carryOut_effect (d : Desk) (c : Call) : Effect d c (d.carryOut c) := by
  by_cases hp : d.Permits c
  · have hidle : c.verdict? = none → Effect d c d := fun hc => .idle fun i o hi => by
      rw [hc] at hi
      cases hi
    rw [carryOut_of_permits hp]
    cases c with
    | claim i => exact effect_claim d i
    | markFetching i => exact effect_markFetching d i
    | markVerified i => exact effect_mark rfl rfl
    | markInvalid i => exact effect_mark rfl rfl
    | demote i => exact effect_demote d i
    | recordInvalid t => exact .recorded (hp t rfl)
    | verified t => exact effect_useUp rfl (hp t rfl)
    | failed t e => exact effect_useUp rfl (hp t rfl)
    | drop t => exact effect_useUp rfl (hp t rfl)
    | get i => exact hidle rfl
    | snapshot => exact hidle rfl
  · unfold carryOut
    rw [if_neg hp]
    exact .idle fun i o _ h => absurd h hp

/-- What every single call keeps is kept by a run. -/
theorem run_induction {p : Desk → Prop} {calls : List Call}
    (hstep : ∀ c ∈ calls, ∀ d d', Effect d c d' → p d → p d') (h : p d) : p (d.run calls) := by
  induction calls generalizing d with
  | nil => exact h
  | cons c cs ih =>
    have hfirst := hstep c List.mem_cons_self d _ (d.carryOut_effect c) h
    apply ih _ hfirst
    intro c' hc'
    exact hstep c' (List.mem_cons_of_mem _ hc')

theorem Effect.chunkCount {d' : Desk} (h : Effect d c d') :
    d'.ledger.chunkCount = d.ledger.chunkCount := by
  cases h with
  | marked | settled => exact Ledger.settle_chunkCount
  | demoted => exact Ledger.demote_chunkCount
  | idle | claimed | started | expired | recorded => rfl

end Desk

namespace Ledger

open Desk (Call)

variable {g : Ledger}

/-- The desk after some calls, of which the first finds the ledger `g` and no
ticket out. -/
def after (g : Ledger) (calls : List Call) : Desk :=
  Desk.run ⟨g, []⟩ calls

theorem after_append (g : Ledger) (calls later : List Call) :
    g.after (calls ++ later) = (g.after calls).run later :=
  Desk.run_append _ _ _

theorem after_concat (g : Ledger) (calls : List Call) (c : Call) :
    g.after (calls ++ [c]) = (g.after calls).carryOut c :=
  g.after_append calls [c]

theorem after_chunkCount (g : Ledger) (calls : List Call) :
    (g.after calls).ledger.chunkCount = g.chunkCount := by
  unfold after
  apply Desk.run_induction (p := fun d => d.ledger.chunkCount = g.chunkCount) _ rfl
  intro c _ d d' heffect hd
  rw [heffect.chunkCount, hd]

/-- Nothing is in flight on a fresh ledger, and nothing ever was. -/
theorem Fresh.idle (h : g.Fresh) : g.inFlight = [] ∧ g.flights = [] := by
  rcases h with ⟨chunkCount, rfl⟩ | ⟨b, hb⟩
  · exact ⟨rfl, rfl⟩
  · obtain ⟨-, -, hidle, hflights, -⟩ := restore_eq_ok_iff.1 hb
    exact ⟨hidle, hflights⟩

theorem Fresh.flight? (h : g.Fresh) (i : Nat) : g.flight? i = none := by
  unfold Ledger.flight?
  rw [h.idle.1]
  rfl

end Ledger
end VerifiedCopy
