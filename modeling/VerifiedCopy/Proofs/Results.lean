/-
# Results read back

A computation that may refuse is a chain of parts, and it succeeds if every part
does. The lemmas of this module take such a chain apart: from the result of the
chain they lead to the results of its parts. A check in the chain is a part that
refuses if its condition holds.

Key theorems: `bind_eq_ok_iff`, `refuse_eq_ok_iff`.
-/
namespace VerifiedCopy

variable {ε α β : Type} {x : Except ε α} {k : α → Except ε β} {b : β} {e : ε}

theorem bind_eq_ok_iff : (x >>= k) = .ok b ↔ ∃ a, x = .ok a ∧ k a = .ok b := by
  cases x with
  | error e' => exact ⟨(nomatch ·), fun ⟨_, h, _⟩ => nomatch h⟩
  | ok a =>
    refine ⟨fun h => ⟨a, rfl, h⟩, ?_⟩
    rintro ⟨a', h, hk⟩
    cases h
    exact hk

theorem bind_eq_error_iff :
    (x >>= k) = .error e ↔ x = .error e ∨ ∃ a, x = .ok a ∧ k a = .error e := by
  cases x with
  | error e' =>
    refine ⟨fun h => .inl (congrArg Except.error (Except.error.inj h)), ?_⟩
    rintro (h | ⟨a, h, -⟩)
    · exact congrArg Except.error (Except.error.inj h)
    · cases h
  | ok a =>
    refine ⟨fun h => .inr ⟨a, rfl, h⟩, ?_⟩
    rintro (h | ⟨a', h, hk⟩)
    · cases h
    · cases h
      exact hk

theorem map_eq_ok_iff {g : α → β} : x.map g = .ok b ↔ ∃ a, x = .ok a ∧ g a = b := by
  cases x with
  | error e' => exact ⟨(nomatch ·), fun ⟨_, h, _⟩ => nomatch h⟩
  | ok a =>
    refine ⟨fun h => ⟨a, rfl, Except.ok.inj h⟩, ?_⟩
    rintro ⟨a', h, hg⟩
    cases h
    rw [← hg]
    rfl

theorem mapError_ok {ε' : Type} (g : ε → ε') (a : α) :
    (Except.ok a : Except ε α).mapError g = .ok a := rfl

theorem eq_ok_of_toOption {a : α} {x : Except ε α} (h : x.toOption = some a) : x = .ok a := by
  cases x with
  | error e => cases h
  | ok a' =>
    cases h
    rfl

/-- A computation that also leaves a state behind, and has not succeeded. -/
theorem exists_error {δ : Type} {x : Except ε α × δ} (h : x.1.toOption.isNone = true) :
    ∃ e, x = (.error e, x.2) := by
  obtain ⟨e | a, y⟩ := x
  · exact ⟨e, rfl⟩
  · cases h

theorem exists_ok {δ : Type} {x : Except ε α × δ} (h : x.1.toOption.isSome = true) :
    ∃ a, x = (.ok a, x.2) := by
  obtain ⟨e | a, y⟩ := x
  · cases h
  · exact ⟨a, rfl⟩

/-! ### Checks -/

variable {p : Prop} [Decidable p] {refusal : ε} {y : Except ε β}

theorem refuse_eq_ok_iff :
    (if p then (throw refusal >>= k : Except ε β) else y) = .ok b ↔ ¬ p ∧ y = .ok b := by
  by_cases h : p
  · rw [if_pos h]
    exact ⟨(nomatch ·), fun hy => absurd h hy.1⟩
  · rw [if_neg h]
    exact ⟨fun hy => ⟨h, hy⟩, fun hy => hy.2⟩

theorem refuse_eq_error_iff :
    (if p then (throw refusal >>= k : Except ε β) else y) = .error e ↔
      (p ∧ refusal = e) ∨ (¬ p ∧ y = .error e) := by
  by_cases h : p
  · rw [if_pos h]
    refine ⟨fun hy => .inl ⟨h, Except.error.inj hy⟩, ?_⟩
    rintro (⟨-, rfl⟩ | ⟨hn, -⟩)
    · rfl
    · exact absurd h hn
  · rw [if_neg h]
    refine ⟨fun hy => .inr ⟨h, hy⟩, ?_⟩
    rintro (⟨hp, -⟩ | ⟨-, hy⟩)
    · exact absurd hp h
    · exact hy

end VerifiedCopy
