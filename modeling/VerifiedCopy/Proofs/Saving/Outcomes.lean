/-
# Savings that may fail

In any weather, each step of a saving may fail. A step that fails has done something to
the file with the temporary name only, and one that does not leads on to the next
(`Underway.run_cases`). So a saving that breaks off, wherever it does, leaves a temporary
file at most, and one that does not has put the new content in its place (`save_cases`).
It is confined to two names and to one file that is there already (`Confined`); whatever
has neither of the names and is not that file is as before (`Confined.content?`).

A disk is linked if no name leads to a file that is not there (`Linked`); opening files
and saving them keeps it so (`Placed.linked`, `Saved.linked`).

Key definitions: `Disk.Linked`, `Disk.Confined`, `Disk.held`, `Disk.Underway`.
Key theorems: `Confined.content?`, `openEmpty_cases`, `Underway.saveSteps_cases`,
`save_cases`, `save_error`.
-/
import VerifiedCopy.Proofs.Saving

namespace VerifiedCopy
namespace Disk

variable {d d' : Disk} {p q : Path} {b : Bytes} {id : Nat}
  {names names' written written' : List Path}

/-! ### Changes at some names only -/

/-- No name leads to a file that is not there. -/
def Linked (d : Disk) : Prop := ∀ p id, d.node? p = some (.file id) → id < d.files.length

/-- Only the names in `names` can lead elsewhere on the second disk, and of the files on
the first disk only those with a name in `written` can have other content. -/
structure Confined (names written : List Path) (d d' : Disk) : Prop where
  grows : d.files.length ≤ d'.files.length
  node : ∀ q, q ∉ names → d'.node? q = d.node? q
  content : ∀ id < d.files.length, (∀ q ∈ written, d.node? q ≠ some (.file id)) →
    d'.content id = d.content id
  weather : d'.weather = d.weather

/-- Neither the clock nor the locks are confined. -/
theorem confined_of_clock (d : Disk) (clock : Nat) (locks : List Nat) :
    Confined names written d { d with clock, locks } :=
  ⟨Nat.le_refl _, fun _ _ => rfl, fun _ _ _ => rfl, rfl⟩

theorem Confined.of_locks {clock : Nat} {locks : List Nat}
    (h : Confined names written { d with clock, locks } d') : Confined names written d d' :=
  ⟨h.grows, h.node, h.content, h.weather⟩

theorem Confined.locks (h : Confined names written d d') (clock : Nat) (locks : List Nat) :
    Confined names written d { d' with clock, locks } :=
  ⟨h.grows, h.node, h.content, h.weather⟩

theorem Confined.mono (h : Confined names written d d') (hn : ∀ q ∈ names, q ∈ names')
    (hw : ∀ q ∈ written, q ∈ written') : Confined names' written' d d' where
  grows := h.grows
  node q hq := h.node q fun hmem => hq (hn q hmem)
  content id hid hnot := h.content id hid fun q hq => hnot q (hw q hq)
  weather := h.weather

/-- A name that is left alone leads to the same content, if its file has no name that is
written to. -/
theorem Confined.content? (h : Confined names written d d') (hl : d.Linked) (hq : q ∉ names)
    (hown : ∀ id, d.node? q = some (.file id) → ∀ r ∈ written, d.node? r ≠ some (.file id)) :
    d'.content? q = d.content? q := by
  unfold Disk.content?
  rw [h.node q hq]
  split
  · rename_i id hid
    rw [h.content id (hl q id hid) (hown id hid)]
  · rfl

/-- What was written to is the file that had the name, or one that was not there. -/
theorem Changes.content_of_origin (h : Changes id d d')
    (horigin : d.node? q = some (.file id) ∨ d.node? q = none ∧ id = d.files.length) :
    ∀ id' < d.files.length, (∀ r ∈ [q], d.node? r ≠ some (.file id')) →
      d'.content id' = d.content id' := by
  intro id' hid' hnot
  refine h.others id' hid' ?_
  rintro rfl
  rcases horigin with hnode | ⟨-, rfl⟩
  · exact hnot q (List.mem_singleton.2 rfl) hnode
  · exact Nat.lt_irrefl _ hid'

/-- A file that was placed under a name is the only one that was written to. -/
theorem Placed.confined (h : Placed d q b id d') : Confined [q] [q] d d' where
  grows := h.changes.grows
  node r hr := (h.node r).trans (if_neg fun e => hr (List.mem_singleton.2 e))
  content := h.changes.content_of_origin h.origin
  weather := h.changes.weather

theorem Saved.confined (h : Saved d p b id d') :
    Confined [p, temporaryFor p] [temporaryFor p] d d' where
  grows := h.changes.grows
  node r hr := by
    rw [List.mem_cons, List.mem_singleton, not_or] at hr
    rw [h.node r hr.2, if_neg hr.1]
  content := h.changes.content_of_origin h.origin
  weather := h.changes.weather

theorem Placed.linked (h : Placed d q b id d') (hl : d.Linked) : d'.Linked := by
  intro r id' hr
  rw [h.node] at hr
  split at hr
  · rw [← Node.file.inj (Option.some.inj hr)]
    exact h.known
  · exact Nat.lt_of_lt_of_le (hl r id' hr) h.changes.grows

theorem Saved.linked (h : Saved d p b id d') (hl : d.Linked) : d'.Linked := by
  intro r id' hr
  by_cases htmp : r = temporaryFor p
  · rw [htmp] at hr
    rcases h.temporary_cases with hnode | hnode
    · cases hnode.symm.trans hr
      exact h.known
    · cases hnode.symm.trans hr
  · rw [h.node r htmp] at hr
    split at hr
    · cases hr
      exact h.known
    · exact Nat.lt_of_lt_of_le (hl r id' hr) h.changes.grows

/-! ### The steps of a saving -/

/-- What a file with the given name starts from: the content there, or nothing. -/
def held (d : Disk) (q : Path) : Bytes := (d.content? q).getD []

/-- A file is opened for writing, as it is or new, or nothing happens. -/
theorem openWrite_placed (hl : d.Linked) (q : Path) :
    (∃ e clock, d.openWrite q = (.error e, { d with clock })) ∨
    ∃ id d', d.openWrite q = (.ok ⟨q, .file id, true⟩, d') ∧ Placed d q (d.held q) id d' := by
  rcases d.openWrite_cases q with ⟨e, h⟩ | ⟨id, hn, h⟩ | ⟨hn, h⟩
  · exact .inl ⟨e, _, h⟩
  · have hheld : d.held q = d.content id := by
      unfold held Disk.content?
      rw [hn]
      rfl
    rw [hheld]
    exact .inr ⟨id, _, h, (placed_of_node hn (hl q id hn)).clock _⟩
  · have hheld : d.held q = [] := by
      unfold held Disk.content?
      rw [hn]
      rfl
    have hmade : Placed d q [] d.files.length ((d.tick .access q).2.create q).2 :=
      (placed_create (d := { d with clock := d.clock + 1 }) hn).of_clock
    rw [hheld]
    exact .inr ⟨d.files.length, _, h, hmade⟩

/-- An empty file is opened, or nothing happens. -/
theorem openEmpty_cases (hl : d.Linked) (q : Path) :
    (∃ e clock, d.openEmpty q = (.error e, { d with clock })) ∨
    ∃ id d', d.openEmpty q = (.ok ⟨q, .file id, true⟩, d') ∧ Placed d q [] id d' := by
  unfold openEmpty
  rcases d.openWrite_placed hl q with ⟨e, clock, h⟩ | ⟨id, d', h, hp⟩
  · rw [h]
    exact .inl ⟨e, clock, rfl⟩
  · rw [h]
    exact .inr ⟨id, _, rfl, hp.setContent []⟩

/-- A write to a new file that fails leaves something else there. -/
theorem Placed.write_cases (hp : Placed d q [] id d') (b : Bytes) :
    (∃ e b' d'', d'.writeAt ⟨q, .file id, true⟩ 0 b = (.error e, d'') ∧ Placed d q b' id d'') ∨
    ∃ d'', d'.writeAt ⟨q, .file id, true⟩ 0 b = (.ok (), d'') ∧ Placed d q b id d'' := by
  rcases ht : d'.tick .write q with ⟨fault, d₁⟩
  have hsame : d₁ = { d' with clock := d'.clock + 1 } := congrArg Prod.snd ht.symm
  have hstore : ∀ b', Placed d q b' id (d₁.store ⟨q, .file id, true⟩ 0 b') := by
    intro b'
    rw [hsame, store_of_empty (d := { d' with clock := d'.clock + 1 }) hp.content]
    exact (hp.clock _).setContent b'
  unfold writeAt
  by_cases hnil : b = []
  · rw [if_pos hnil, hnil]
    exact .inr ⟨d', rfl, hp⟩
  · rw [if_neg hnil, ht]
    cases fault with
    | some f => exact .inl ⟨f.error, _, _, rfl, hstore _⟩
    | none =>
      dsimp only
      rw [if_neg (by decide)]
      split
      · rw [hsame]
        exact .inl ⟨_, [], _, rfl, hp.clock _⟩
      · exact .inr ⟨_, rfl, hstore b⟩

theorem Placed.sync_cases (hp : Placed d q b id d') (h : Handle) :
    (∃ e d'', d'.sync h = (.error e, d'') ∧ Placed d q b id d'') ∨
    ∃ d'', d'.sync h = (.ok (), d'') ∧ Placed d q b id d'' := by
  unfold Disk.sync tick
  cases d'.weather d'.clock .sync h.path with
  | some f => exact .inl ⟨f.error, _, rfl, hp.clock _⟩
  | none => exact .inr ⟨_, rfl, hp.clock _⟩

/-- The file with the temporary name gets the name, or keeps the temporary one. -/
theorem Placed.rename_cases (hp : Placed d (temporaryFor p) b id d') :
    (∃ e clock, d'.rename (temporaryFor p) p = (.error e, { d' with clock })) ∨
    ∃ d'', d'.rename (temporaryFor p) p = (.ok (), d'') ∧ Saved d p b id d'' := by
  have hsource : d'.node? (temporaryFor p) = some (.file id) := (hp.node _).trans (if_pos rfl)
  rcases d'.rename_cases (temporaryFor p) p with ⟨e, h⟩ | ⟨n, hn, h⟩
  · exact .inl ⟨e, _, h⟩
  · obtain rfl : n = .file id := Option.some.inj (hn.symm.trans hsource)
    exact .inr ⟨_, h, hp.saved⟩

/-! ### Savings -/

/-- What is left behind by a saving that broke off: nothing has happened, or there is a file
under the temporary name `q`. -/
inductive Leftover (d : Disk) (q : Path) : Disk → Prop where
  | nothing (clock : Nat) : Leftover d q { d with clock }
  | file {b : Bytes} {id : Nat} {d' : Disk} (h : Placed d q b id d') : Leftover d q d'

theorem Leftover.confined (h : Leftover d q d') : Confined [q] [q] d d' := by
  cases h with
  | nothing clock => exact d.confined_of_clock clock d.locks
  | file h => exact h.confined

/-- How far a saving of `b` under `p` has come, told by the steps that are left. -/
inductive Underway (d : Disk) (p : Path) (b : Bytes) : List SaveStep → Saving → Prop where
  | start : Underway d p b SaveStep.all ⟨d, none⟩
  | created {id : Nat} {d' : Disk} (h : Placed d (temporaryFor p) [] id d') :
    Underway d p b [.write, .sync, .rename] ⟨d', some ⟨temporaryFor p, .file id, true⟩⟩
  | written {id : Nat} {d' : Disk} (h : Placed d (temporaryFor p) b id d') :
    Underway d p b [.sync, .rename] ⟨d', some ⟨temporaryFor p, .file id, true⟩⟩
  | synced {id : Nat} {d' : Disk} (h : Placed d (temporaryFor p) b id d') :
    Underway d p b [.rename] ⟨d', some ⟨temporaryFor p, .file id, true⟩⟩
  | renamed {id : Nat} {d' : Disk} (h : Saved d p b id d') :
    Underway d p b [] ⟨d', some ⟨temporaryFor p, .file id, true⟩⟩

/-- The next step is taken, or it fails and touches the file with the temporary name at
most. -/
theorem Underway.run_cases (hl : d.Linked) {step : SaveStep} {rest : List SaveStep} {s : Saving}
    (h : Underway d p b (step :: rest) s) :
    (∃ context text s', step.run p b s = (.error (.io context text), s') ∧
      Leftover d (temporaryFor p) s'.disk) ∨
    ∃ s', step.run p b s = (.ok (), s') ∧ Underway d p b rest s' := by
  cases h with
  | start =>
    simp only [SaveStep.run]
    rcases d.openEmpty_cases hl (temporaryFor p) with ⟨e, clock, h⟩ | ⟨id, d₁, h, h₁⟩
    · rw [h]
      exact .inl ⟨_, _, _, rfl, .nothing clock⟩
    · rw [h]
      exact .inr ⟨_, rfl, .created h₁⟩
  | created hp =>
    simp only [SaveStep.run]
    rcases hp.write_cases b with ⟨e, b', d₂, h, h₂⟩ | ⟨d₂, h, h₂⟩
    · rw [h]
      exact .inl ⟨_, _, _, rfl, .file h₂⟩
    · rw [h]
      exact .inr ⟨_, rfl, .written h₂⟩
  | @written id _ hp =>
    simp only [SaveStep.run]
    rcases hp.sync_cases ⟨temporaryFor p, .file id, true⟩ with ⟨e, d₃, h, h₃⟩ | ⟨d₃, h, h₃⟩
    · rw [h]
      exact .inl ⟨_, _, _, rfl, .file h₃⟩
    · rw [h]
      exact .inr ⟨_, rfl, .synced h₃⟩
  | synced hp =>
    simp only [SaveStep.run]
    rcases hp.rename_cases with ⟨e, clock, h⟩ | ⟨d₄, h, h₄⟩
    · rw [h]
      exact .inl ⟨_, _, _, rfl, .file (hp.clock clock)⟩
    · rw [h]
      exact .inr ⟨_, rfl, .renamed h₄⟩

/-- Some of the steps that are left are taken, or one of them fails. -/
theorem Underway.saveSteps_cases (hl : d.Linked) : ∀ {steps rest : List SaveStep} {s : Saving},
    Underway d p b (steps ++ rest) s →
    (∃ context text s', saveSteps p b steps s = (.error (.io context text), s') ∧
      Leftover d (temporaryFor p) s'.disk) ∨
    ∃ s', saveSteps p b steps s = (.ok (), s') ∧ Underway d p b rest s'
  | [], _, s, h => .inr ⟨s, rfl, h⟩
  | step :: steps, rest, s, h => by
    unfold saveSteps
    rcases h.run_cases hl with ⟨context, text, s', hrun, hleft⟩ | ⟨s', hrun, h'⟩
    · rw [hrun]
      exact .inl ⟨context, text, s', rfl, hleft⟩
    · rw [hrun]
      exact saveSteps_cases hl h'

/-- A saving that fails has touched the file with the temporary name at most; one that
succeeds has put the content in its place. -/
theorem save_cases (hl : d.Linked) (p : Path) (b : Bytes) :
    (∃ context text d', d.save p b = (.error (.io context text), d') ∧
      Confined [temporaryFor p] [temporaryFor p] d d') ∨
    ∃ id d', d.save p b = (.ok (), d') ∧ Saved d p b id d' := by
  have hstart : Underway d p b (SaveStep.all ++ []) ⟨d, none⟩ := .start
  unfold save
  rcases hstart.saveSteps_cases hl with ⟨context, text, s, h, hleft⟩ | ⟨s, h, hdone⟩
  · rw [h]
    exact .inl ⟨context, text, s.disk, rfl, hleft.confined⟩
  · rw [h]
    cases hdone with
    | renamed hsaved => exact .inr ⟨_, _, rfl, hsaved⟩

/-! ### Failures -/

/-- The failure of a file operation, put into words, is that of a file operation. -/
theorem eq_io_of_mapError {α : Type} {x : Except IoError α} {context : String} {e : Error}
    (h : x.mapError (IoError.within context) = .error e) : ∃ c text, e = .io c text := by
  cases x with
  | error e' =>
    cases h
    exact ⟨_, _, rfl⟩
  | ok a => cases h

theorem run_error {step : SaveStep} {s : Saving} {e : Error}
    (h : (step.run p b s).1 = .error e) : ∃ c text, e = .io c text := by
  cases step with
  | create =>
    simp only [SaveStep.run] at h
    split at h
    · cases h
      exact ⟨_, _, rfl⟩
    · cases h
  | write =>
    simp only [SaveStep.run] at h
    split at h
    · cases h
    · exact eq_io_of_mapError h
  | sync =>
    simp only [SaveStep.run] at h
    split at h
    · cases h
    · exact eq_io_of_mapError h
  | rename => exact eq_io_of_mapError h

theorem saveSteps_error {e : Error} : ∀ {steps : List SaveStep} {s : Saving},
    (saveSteps p b steps s).1 = .error e → ∃ c text, e = .io c text
  | [], _, h => by cases h
  | step :: rest, s, h => by
    unfold saveSteps at h
    rcases hstep : step.run p b s with ⟨e' | u, s'⟩
    · rw [hstep] at h
      cases h
      exact run_error (by rw [hstep])
    · rw [hstep] at h
      exact saveSteps_error h

/-- On any disk, a saving fails with the failure of a file operation. -/
theorem save_error {e : Error} (h : (d.save p b).1 = .error e) : ∃ c text, e = .io c text := by
  have hsteps : (saveSteps p b SaveStep.all ⟨d, none⟩).1 = .error e := h
  exact saveSteps_error hsteps

end Disk
end VerifiedCopy
