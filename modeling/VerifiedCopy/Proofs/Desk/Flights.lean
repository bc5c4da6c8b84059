/-
# What becomes of flights

Whoever asks for a chunk that is in flight is told its flight, and waits until that
is published. Flights are numbered as they take off, and what a call does to them is
one of three things (`Traffic`): nothing, a departure, or a landing, which removes the
entry of one chunk and publishes the flight of that entry.

Two facts carry over from call to call (`Tracks`): the flights that are not yet
published are those that some chunk is on, and no two chunks are on one flight. So a
flight has one landing, and with it one publication (`published_run`); whoever waits
for it is told the outcome that the chunk was settled with
(`flight_published_once`).

Key definitions: `publishes`, `published`, `Traffic`, `Ledger.Tracks`, `Ledger.Serves`.
Key theorems: `Effect.traffic`, `Traffic.tracks`, `published_run`,
`flight_published_once`.
-/
import VerifiedCopy.Proofs.Desk

namespace VerifiedCopy

namespace Desk

/-- What a call publishes of flight `f`: the outcome that it settles a chunk with, if
the chunk is in flight, and on this flight. -/
def publishes (f : FlightId) (d : Desk) (c : Call) : Option Outcome :=
  match c.verdict? with
  | some (i, o) =>
    if d.Permits c ∧ d.ledger.state i = .fetching ∧ d.ledger.flight? i = some f then some o
    else none
  | none => none

/-- What some calls publish of flight `f`, in order. -/
def published (f : FlightId) (d : Desk) : List Call → List Outcome
  | [] => []
  | c :: cs => (publishes f d c).toList ++ published f (d.carryOut c) cs

variable {d d' : Desk} {c : Call} {i : Nat} {f : FlightId}

/-! ### What a call does to flights -/

/-- All that a call can do to flights. -/
inductive Traffic (d : Desk) (c : Call) (d' : Desk) : Prop
  /-- Every chunk is on the flight that it was on. -/
  | quiet (hentry : ∀ j, d'.ledger.flight? j = d.ledger.flight? j)
      (hslots : d'.ledger.flights = d.ledger.flights) (hsilent : ∀ f, publishes f d c = none)
  /-- A chunk that was on none takes a new flight. -/
  | departure (i : Nat) (hidle : d.ledger.flight? i = none)
      (hentry : ∀ j, d'.ledger.flight? j =
        if j = i then some d.ledger.flights.length else d.ledger.flight? j)
      (hslots : d'.ledger.flights = d.ledger.flights ++ [none])
      (hsilent : ∀ f, publishes f d c = none)
  /-- The flight of a chunk lands with the outcome that the chunk is settled with. -/
  | landing (i : Nat) (o : Outcome) (f : FlightId) (hc : c.verdict? = some (i, o))
      (hf : d.ledger.flight? i = some f)
      (hentry : ∀ j, d'.ledger.flight? j = if j = i then none else d.ledger.flight? j)
      (hslots : d'.ledger.flights = d.ledger.flights.set f (some o))
      (hpublish : ∀ f', publishes f' d c = if f' = f then some o else none)
      (hstate : d'.ledger.state i = Ledger.stateAfter o)

theorem Call.ticket?_of_verdict? {o : Outcome} (hc : c.verdict? = some (i, o)) {t : Ticket}
    (ht : c.ticket? = some t) : t = ⟨i⟩ := by
  cases c <;> cases ht <;> cases hc <;> rfl

theorem permits_of_mem {o : Outcome} (hc : c.verdict? = some (i, o)) (ht : ⟨i⟩ ∈ d.tickets) :
    d.Permits c := by
  intro t hct
  rw [Call.ticket?_of_verdict? hc hct]
  exact ht

theorem permits_of_isMark (hm : c.isMark = true) : d.Permits c := by
  intro t hct
  cases c with
  | markFetching | markVerified | markInvalid => cases hct
  | _ => cases hm

theorem publishes_of_verdict_none (hc : c.verdict? = none) : publishes f d c = none := by
  unfold publishes
  rw [hc]

/-- A call publishes nothing of a chunk that is not in flight. -/
theorem publishes_of_ne_fetching {o : Outcome} (hc : c.verdict? = some (i, o))
    (h : d.Permits c → d.ledger.state i ≠ .fetching) : publishes f d c = none := by
  unfold publishes
  rw [hc]
  exact if_neg fun hlands => h hlands.1 hlands.2.1

theorem publishes_of_fetching {o : Outcome} (hc : c.verdict? = some (i, o)) (hp : d.Permits c)
    (hs : d.ledger.state i = .fetching) {f' : FlightId} (hf : d.ledger.flight? i = some f') :
    publishes f d c = if f = f' then some o else none := by
  unfold publishes
  rw [hc]
  by_cases h : f = f'
  · rw [if_pos h]
    exact if_pos ⟨hp, hs, by rw [hf, h]⟩
  · rw [if_neg h]
    refine if_neg fun hlands => h ?_
    exact Option.some.inj (hlands.2.2.symm.trans hf)

/-- A chunk that is settled lands. -/
theorem traffic_settle {o : Outcome} (hc : c.verdict? = some (i, o)) (hp : d.Permits c)
    (hs : d.ledger.state i = .fetching) (ts : List Ticket) :
    Traffic d c ⟨(d.ledger.settle i o).2, ts⟩ := by
  obtain ⟨hi, flight, hf⟩ := Ledger.state_eq_fetching_iff.1 hs
  refine .landing i o flight hc hf (fun j => Ledger.flight?_settle hs o)
    (Ledger.settle_flights hi hf o) (fun f' => publishes_of_fetching hc hp hs hf) ?_
  show (d.ledger.settle i o).2.state i = _
  rw [Ledger.state_settle hs, if_pos rfl]

/-- Every call does one of these things. -/
theorem Effect.traffic (h : Effect d c d') : Traffic d c d' := by
  cases h with
  | idle hidle =>
    refine .quiet (fun _ => rfl) rfl fun f => ?_
    cases hc : c.verdict? with
    | none => exact publishes_of_verdict_none hc
    | some v => exact publishes_of_ne_fetching hc (hidle v.1 v.2 hc)
  | @claimed i _ hf _ | @started i _ hf _ =>
    exact .departure i hf (fun j => Ledger.flight?_depart) rfl
      fun f => publishes_of_verdict_none rfl
  | marked hc hm hs => exact traffic_settle hc (permits_of_isMark hm) hs _
  | settled hc ht hs => exact traffic_settle hc (permits_of_mem hc ht) hs _
  | expired hc _ hs =>
    exact .quiet (fun _ => rfl) rfl fun f => publishes_of_ne_fetching hc fun _ => hs
  | @demoted i _ =>
    refine .quiet (fun j => ?_) Ledger.demote_flights fun f => publishes_of_verdict_none rfl
    unfold Ledger.flight?
    rw [Ledger.demote_inFlight]
  | recorded => exact .quiet (fun _ => rfl) rfl fun f => publishes_of_verdict_none rfl

end Desk

/-! ### Flights and the chunks that are on them -/

theorem getElem?_concat {α : Type} (l : List α) (a : α) (k : Nat) :
    (l ++ [a])[k]? = if k = l.length then some a else l[k]? := by
  by_cases hk : k = l.length
  · rw [if_pos hk, hk, List.getElem?_concat_length]
  · rw [if_neg hk]
    rcases Nat.lt_or_gt_of_ne hk with hlt | hgt
    · exact List.getElem?_append_left hlt
    · have hlong : (l ++ [a]).length ≤ k := by rw [List.length_append]; exact hgt
      rw [List.getElem?_eq_none hlong, List.getElem?_eq_none (Nat.le_of_lt hgt)]

namespace Ledger

/-- The flights that are not yet published are those that some chunk is on, and no
two chunks are on one flight. -/
structure Tracks (g : Ledger) : Prop where
  pending : ∀ f, g.flights[f]? = some none ↔ ∃ i, g.flight? i = some f
  alone : ∀ i j f, g.flight? i = some f → g.flight? j = some f → i = j

/-- Flight `f` was given to chunk `i`: it has taken off, and no other chunk is on it. -/
structure Serves (g : Ledger) (i : Nat) (f : FlightId) : Prop where
  departed : f < g.flights.length
  only : ∀ j, g.flight? j = some f → j = i

variable {g : Ledger} {i : Nat} {f : FlightId}

theorem Tracks.lt_length (h : g.Tracks) (hf : g.flight? i = some f) : f < g.flights.length := by
  have hslot := (h.pending f).2 ⟨i, hf⟩
  exact (List.getElem?_eq_some_iff.1 hslot).1

theorem Tracks.serves (h : g.Tracks) (hf : g.flight? i = some f) : g.Serves i f :=
  ⟨h.lt_length hf, fun j hj => h.alone j i f hj hf⟩

theorem Tracks.outcome?_eq_none (h : g.Tracks) (hf : g.flight? i = some f) :
    g.outcome? f = none := by
  unfold outcome?
  rw [(h.pending f).2 ⟨i, hf⟩]
  rfl

/-- A flight is unpublished exactly while the chunk that it was given to is on it. -/
theorem Serves.outcome?_eq_none_iff (hs : g.Serves i f) (h : g.Tracks) :
    g.outcome? f = none ↔ g.flight? i = some f := by
  constructor
  · intro hnone
    have hslot : g.flights[f]? = some none := by
      unfold outcome? at hnone
      rw [List.getElem?_eq_getElem hs.departed] at hnone ⊢
      exact congrArg some hnone
    obtain ⟨j, hj⟩ := (h.pending f).1 hslot
    rw [hs.only j hj] at hj
    exact hj
  · exact h.outcome?_eq_none

theorem Fresh.tracks (hg : g.Fresh) : g.Tracks where
  pending f := by
    rw [hg.idle.2]
    constructor
    · intro h
      cases h
    · rintro ⟨i, hi⟩
      rw [hg.flight? i] at hi
      cases hi
  alone i j f hi := by
    rw [hg.flight? i] at hi
    cases hi

section Entries

variable {g' : Ledger} {k : Nat}

theorem Tracks.quiet (h : g.Tracks) (hentry : ∀ j, g'.flight? j = g.flight? j)
    (hslots : g'.flights = g.flights) : g'.Tracks where
  pending f := by
    simp only [hslots, hentry]
    exact h.pending f
  alone i j f hi hj := by
    rw [hentry] at hi hj
    exact h.alone i j f hi hj

theorem Tracks.departure (h : g.Tracks) (hidle : g.flight? k = none)
    (hentry : ∀ j, g'.flight? j = if j = k then some g.flights.length else g.flight? j)
    (hslots : g'.flights = g.flights ++ [none]) : g'.Tracks := by
  have hcases : ∀ i f, g'.flight? i = some f →
      (i = k ∧ f = g.flights.length) ∨ (f < g.flights.length ∧ g.flight? i = some f) := by
    intro i f hi
    rw [hentry] at hi
    by_cases hik : i = k
    · rw [if_pos hik] at hi
      cases hi
      exact .inl ⟨hik, rfl⟩
    · rw [if_neg hik] at hi
      exact .inr ⟨h.lt_length hi, hi⟩
  constructor
  · intro f
    rw [hslots, getElem?_concat]
    by_cases hf : f = g.flights.length
    · have hk : g'.flight? k = some f := by rw [hentry, if_pos rfl, hf]
      rw [if_pos hf]
      exact ⟨fun _ => ⟨k, hk⟩, fun _ => rfl⟩
    · rw [if_neg hf, h.pending f]
      constructor
      · rintro ⟨i, hi⟩
        have hik : i ≠ k := by
          rintro rfl
          rw [hidle] at hi
          cases hi
        exact ⟨i, by rw [hentry, if_neg hik, hi]⟩
      · rintro ⟨i, hi⟩
        rcases hcases i f hi with ⟨-, hnewest⟩ | ⟨-, hold⟩
        · exact absurd hnewest hf
        · exact ⟨i, hold⟩
  · intro i j f hi hj
    rcases hcases i f hi with ⟨hik, hf⟩ | ⟨hlt, hi⟩
    · rcases hcases j f hj with ⟨hjk, -⟩ | ⟨hlt, -⟩
      · rw [hik, hjk]
      · exact absurd hf (Nat.ne_of_lt hlt)
    · rcases hcases j f hj with ⟨-, hf⟩ | ⟨-, hj⟩
      · exact absurd hf (Nat.ne_of_lt hlt)
      · exact h.alone i j f hi hj

theorem Tracks.landing {o : Outcome} (h : g.Tracks) (hf : g.flight? k = some f)
    (hentry : ∀ j, g'.flight? j = if j = k then none else g.flight? j)
    (hslots : g'.flights = g.flights.set f (some o)) : g'.Tracks := by
  have hcases : ∀ i f', g'.flight? i = some f' ↔ i ≠ k ∧ g.flight? i = some f' := by
    intro i f'
    rw [hentry]
    by_cases hik : i = k
    · simp [hik]
    · simp [hik]
  constructor
  · intro f'
    simp only [hslots, hcases]
    by_cases hff : f' = f
    · rw [hff, List.getElem?_set_self (h.lt_length hf)]
      constructor
      · intro hnone
        cases hnone
      · rintro ⟨i, hik, hi⟩
        exact absurd (h.alone i k f hi hf) hik
    · rw [List.getElem?_set_ne (Ne.symm hff), h.pending f']
      constructor
      · rintro ⟨i, hi⟩
        have hik : i ≠ k := by
          rintro rfl
          rw [hf] at hi
          cases hi
          exact hff rfl
        exact ⟨i, hik, hi⟩
      · rintro ⟨i, -, hi⟩
        exact ⟨i, hi⟩
  · intro i j f' hi hj
    have hi' := (hcases i f').1 hi
    have hj' := (hcases j f').1 hj
    exact h.alone i j f' hi'.2 hj'.2

end Entries

end Ledger

namespace Desk

variable {d d' : Desk} {c : Call} {i : Nat} {f : FlightId}

theorem Traffic.tracks (h : Traffic d c d') (hd : d.ledger.Tracks) : d'.ledger.Tracks := by
  cases h with
  | quiet hentry hslots => exact hd.quiet hentry hslots
  | departure k hidle hentry hslots => exact hd.departure hidle hentry hslots
  | landing k o f₀ hc hf hentry hslots => exact hd.landing hf hentry hslots

/-- A flight is for one chunk only, for ever. -/
theorem Traffic.serves (h : Traffic d c d') (hs : d.ledger.Serves i f) : d'.ledger.Serves i f := by
  obtain ⟨hdeparted, honly⟩ := hs
  cases h with
  | quiet hentry hslots =>
    constructor
    · rw [hslots]
      exact hdeparted
    · intro j hj
      rw [hentry] at hj
      exact honly j hj
  | departure k hidle hentry hslots =>
    constructor
    · rw [hslots, List.length_append]
      exact Nat.lt_add_right _ hdeparted
    · intro j hj
      rw [hentry] at hj
      by_cases hjk : j = k
      · rw [if_pos hjk] at hj
        cases hj
        exact absurd hdeparted (Nat.lt_irrefl _)
      · rw [if_neg hjk] at hj
        exact honly j hj
  | landing k o f₀ hc hf hentry hslots =>
    constructor
    · rw [hslots, List.length_set]
      exact hdeparted
    · intro j hj
      rw [hentry] at hj
      by_cases hjk : j = k
      · rw [if_pos hjk] at hj
        cases hj
      · rw [if_neg hjk] at hj
        exact honly j hj

/-- What was published of a flight before a call and what the call publishes is
what has been published of it afterwards. -/
theorem Traffic.outcome? (h : Traffic d c d') (hd : d.ledger.Tracks) (f : FlightId) :
    (d.ledger.outcome? f).toList ++ (publishes f d c).toList = (d'.ledger.outcome? f).toList := by
  cases h with
  | quiet hentry hslots hsilent =>
    rw [hsilent f]
    unfold Ledger.outcome?
    rw [hslots]
    exact List.append_nil _
  | departure k hidle hentry hslots hsilent =>
    have hsame : (d.ledger.flights ++ [none])[f]?.join = d.ledger.flights[f]?.join := by
      rw [getElem?_concat]
      by_cases hf : f = d.ledger.flights.length
      · rw [if_pos hf, hf, List.getElem?_eq_none (Nat.le_refl _)]
        rfl
      · rw [if_neg hf]
    rw [hsilent f]
    unfold Ledger.outcome?
    rw [hslots, hsame]
    exact List.append_nil _
  | landing k o f₀ hc hf hentry hslots hpublish =>
    by_cases hff : f = f₀
    · have hpublished : d'.ledger.outcome? f₀ = some o := by
        unfold Ledger.outcome?
        rw [hslots, List.getElem?_set_self (hd.lt_length hf)]
        rfl
      rw [hpublish, if_pos hff, hff, hd.outcome?_eq_none hf, hpublished]
      rfl
    · rw [hpublish, if_neg hff]
      unfold Ledger.outcome?
      rw [hslots, List.getElem?_set_ne (Ne.symm hff)]
      exact List.append_nil _

theorem run_tracks (calls : List Call) (hd : d.ledger.Tracks) : (d.run calls).ledger.Tracks :=
  run_induction (p := fun d => d.ledger.Tracks) (fun _ _ _ _ h => h.traffic.tracks) hd

theorem run_serves (calls : List Call) (hs : d.ledger.Serves i f) :
    (d.run calls).ledger.Serves i f :=
  run_induction (p := fun d => d.ledger.Serves i f) (fun _ _ _ _ h => h.traffic.serves) hs

/-- What has been published of a flight is what the calls published of it, so they
did so at most once. -/
theorem published_run (calls : List Call) (hd : d.ledger.Tracks) (f : FlightId) :
    (d.ledger.outcome? f).toList ++ published f d calls =
      ((d.run calls).ledger.outcome? f).toList := by
  induction calls generalizing d with
  | nil => exact List.append_nil _
  | cons c cs ih =>
    have heffect := (d.carryOut_effect c).traffic
    calc (d.ledger.outcome? f).toList ++ published f d (c :: cs)
        = ((d.ledger.outcome? f).toList ++ (publishes f d c).toList) ++
            published f (d.carryOut c) cs := (List.append_assoc _ _ _).symm
      _ = ((d.carryOut c).ledger.outcome? f).toList ++ published f (d.carryOut c) cs := by
          rw [heffect.outcome? hd f]
      _ = (((d.carryOut c).run cs).ledger.outcome? f).toList := ih (heffect.tracks hd)

/-- The entry of a chunk in flight stays until the call that settles the chunk. -/
theorem Traffic.entry (h : Traffic d c d') (hf : d.ledger.flight? i = some f) :
    d'.ledger.flight? i = some f ∨
      ∃ o, c.verdict? = some (i, o) ∧ publishes f d c = some o ∧ d'.ledger.flight? i = none ∧
        d'.ledger.state i = Ledger.stateAfter o := by
  cases h with
  | quiet hentry =>
    left
    rw [hentry, hf]
  | departure k hidle hentry =>
    have hik : i ≠ k := by
      rintro rfl
      rw [hidle] at hf
      cases hf
    left
    rw [hentry, if_neg hik, hf]
  | landing k o f₀ hc hf₀ hentry _ hpublish hstate =>
    by_cases hik : i = k
    · subst hik
      rw [hf₀] at hf
      cases hf
      right
      exact ⟨o, hc, by rw [hpublish, if_pos rfl], by rw [hentry, if_pos rfl], hstate⟩
    · left
      rw [hentry, if_neg hik, hf]

end Desk

/-! ### From a fresh ledger on -/

namespace Ledger

open Desk (Call publishes published)

variable {g : Ledger}

/-- No flight is lost, and none is told the wrong outcome. A flight that `claim`
answered with is unpublished exactly while its chunk is on it, and has been published once
otherwise. Its chunk leaves it for no other flight: the call that removes the entry
settles the chunk, and publishes the outcome that it settles the chunk with. -/
theorem flight_published_once (hg : g.Fresh) {calls : List Call} {i : Nat} {f : FlightId}
    (hclaim : ((g.after calls).ledger.claim i).1 = .ok (.inFlight f)) (later : List Call) :
    ((g.after (calls ++ later)).ledger.outcome? f = none ↔
      (g.after (calls ++ later)).ledger.flight? i = some f) ∧
    published f ⟨g, []⟩ (calls ++ later) =
      ((g.after (calls ++ later)).ledger.outcome? f).toList ∧
    ∀ c, (g.after (calls ++ later)).ledger.flight? i = some f →
      (g.after (calls ++ later ++ [c])).ledger.flight? i = some f ∨
        ∃ o, c.verdict? = some (i, o) ∧
          publishes f (g.after (calls ++ later)) c = some o ∧
          (g.after (calls ++ later ++ [c])).ledger.flight? i = none ∧
          (g.after (calls ++ later ++ [c])).ledger.outcome? f = some o ∧
          (g.after (calls ++ later ++ [c])).ledger.state i = stateAfter o := by
  have htracks : ∀ cs, (g.after cs).ledger.Tracks := fun cs => Desk.run_tracks cs hg.tracks
  have hfirst : (g.after calls).ledger.flight? i = some f := by
    have heq : (g.after calls).ledger.claim i =
        (.ok (.inFlight f), ((g.after calls).ledger.claim i).2) := by rw [← hclaim]
    exact (claim_eq_inFlight heq).2
  have hserves : (g.after (calls ++ later)).ledger.Serves i f := by
    rw [after_append]
    exact Desk.run_serves later ((htracks calls).serves hfirst)
  refine ⟨hserves.outcome?_eq_none_iff (htracks _), ?_, fun c hf => ?_⟩
  · have hstart : g.outcome? f = none := by
      unfold outcome?
      rw [hg.idle.2]
      rfl
    have hrun := Desk.published_run (d := ⟨g, []⟩) (calls ++ later) hg.tracks f
    rw [hstart] at hrun
    exact hrun
  · have htraffic := ((g.after (calls ++ later)).carryOut_effect c).traffic
    rw [after_concat]
    rcases htraffic.entry hf with hstays | ⟨o, hc, hpublishes, hgone, hstate⟩
    · exact .inl hstays
    · -- nothing was published before, so what is published is what this call publishes
      have houtcome := htraffic.outcome? (htracks _) f
      rw [(htracks _).outcome?_eq_none hf, hpublishes] at houtcome
      exact .inr ⟨o, hc, hpublishes, hgone, Option.toList_eq_singleton_iff.1 houtcome.symm, hstate⟩

/-- A ticket is dropped while somebody waits. -/
theorem flight_published_once_dropped_ticket :
    (empty 1).Fresh ∧ (((empty 1).after [.claim 0]).ledger.claim 0).1 = .ok (.inFlight 0) ∧
      published 0 ⟨empty 1, []⟩ [.claim 0] = [] ∧
      ((empty 1).after [.claim 0, .drop ⟨0⟩]).ledger.outcome? 0 =
        some (.error (.io "chunk 0" "fetch abandoned")) ∧
      ((empty 1).after [.claim 0, .drop ⟨0⟩]).ledger.state 0 = .invalid := by
  have hg : (empty 1).Fresh := .inl ⟨1, rfl⟩
  have hclaim : (((empty 1).after [.claim 0]).ledger.claim 0).1 = .ok (.inFlight 0) := rfl
  obtain ⟨-, hpublished, hstep⟩ := flight_published_once hg hclaim []
  refine ⟨hg, hclaim, hpublished, ?_⟩
  rcases hstep (.drop ⟨0⟩) rfl with hstays | ⟨o, hc, -, -, houtcome, hstate⟩
  · cases hstays
  · cases hc
    exact ⟨houtcome, hstate⟩

end Ledger
end VerifiedCopy
