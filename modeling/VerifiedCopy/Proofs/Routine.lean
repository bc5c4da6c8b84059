/-
# What jobs and readers are made of

A fetcher is used in four ways: a chunk is tried, a verified chunk is checked again, the
ledger is saved, and local bytes are read. Jobs and readers do nothing else, one after
the other. So a relation between a fetcher at one site and a fetcher at another that can
be chained and that holds of the four ways holds of all that is done with a job or a
reader (`Routine`), and of any sequence of uses of a reader (`Routine.useAll`). Jobs check no
chunk again and read nothing (`JobRoutine`).

Key definitions: `Fetcher.JobRoutine`, `Fetcher.Routine`, `Reader.Use`, `Reader.useAll`.
Key theorems: `JobRoutine.run`, `Routine.ensureChunk`, `Routine.read`, `Routine.useAll`.
-/
import VerifiedCopy.Proofs.Transfers

namespace VerifiedCopy

namespace Fetcher

variable {σ : Type} [RangeSource σ] {R : Fetcher → Site σ → Fetcher → Site σ → Prop}

/-- A relation that can be chained and that holds of what a job does with a fetcher. -/
structure JobRoutine (R : Fetcher → Site σ → Fetcher → Site σ → Prop) : Prop where
  refl (f : Fetcher) (s : Site σ) : R f s f s
  trans {f f' f'' : Fetcher} {s s' s'' : Site σ} : R f s f' s' → R f' s' f'' s'' → R f s f'' s''
  trial (f : Fetcher) (i : Nat) (s : Site σ) : R f s (f.trial i s).2.1 (f.trial i s).2.2
  flush (f : Fetcher) (s : Site σ) : R f s (f.flush s).2.1 (f.flush s).2.2

/-- A relation that holds also of the other things a reader does with a fetcher. -/
structure Routine (R : Fetcher → Site σ → Fetcher → Site σ → Prop) : Prop extends
    JobRoutine R where
  recheck (f : Fetcher) (i : Nat) (s : Site σ) : R f s f (f.recheck i s).2
  look (f : Fetcher) (range : ByteRange) (s : Site σ) :
    R f s f { s with disk := (f.localFile.readRange range s.disk).2 }

/-! ### Jobs -/

namespace JobRoutine

variable (h : JobRoutine R)
include h

theorem advance (j : Job) (n : Nat) (f : Fetcher) (s : Site σ) :
    R f s (j.advance n f s).2.1 (j.advance n f s).2.2 := by
  induction n generalizing j f s with
  | zero => exact h.refl f s
  | succ n ih =>
    unfold Job.advance
    split
    · exact h.refl f s
    · rename_i i j' _
      have htrial := h.trial f i s
      rw [← (j'.carryOut_eq i f s).1] at htrial
      exact h.trans htrial (ih _ _ _)

theorem finish (j : Job) (f : Fetcher) (s : Site σ) :
    R f s (j.finish f s).2.1 (j.finish f s).2.2 := by
  rw [(j.finish_result f s).1]
  exact h.flush f s

theorem run (j : Job) (f : Fetcher) (s : Site σ) : R f s (j.run f s).2.1 (j.run f s).2.2 :=
  h.trans (h.advance j j.queue.length f s) (h.finish _ _ _)

theorem readAhead (r : Reader) (window : List Nat) (s : Site σ) :
    R r.fetcher s (r.readAhead window s).1.fetcher (r.readAhead window s).2 := by
  unfold Reader.readAhead
  split
  · exact h.refl _ _
  · split
    · exact h.refl _ _
    · exact h.run _ _ _

theorem prebuffer (r : Reader) (range : ByteRange) (s : Site σ) :
    R r.fetcher s (r.prebuffer range s).2.1.fetcher (r.prebuffer range s).2.2 := by
  unfold Reader.prebuffer
  split
  · exact h.refl _ _
  · exact h.run _ _ _

end JobRoutine

/-! ### Readers -/

namespace Routine

variable (h : Routine R)
include h

theorem recheckOnce (r : Reader) (i : Nat) (s : Site σ) :
    R r.fetcher s (r.recheckOnce i s).2.1.fetcher (r.recheckOnce i s).2.2 := by
  have hrecheck := h.recheck r.fetcher i s
  unfold Reader.recheckOnce
  split
  · rcases hr : r.fetcher.recheck i s with ⟨e | ok, s'⟩
    · rw [hr] at hrecheck
      exact hrecheck
    · rw [hr] at hrecheck
      exact hrecheck
  · exact h.refl _ _

/-- After a chunk was checked again, it is tried. -/
theorem ensureChunk (r : Reader) (i : Nat) (s : Site σ) :
    R r.fetcher s (r.ensureChunk i s).2.1.fetcher (r.ensureChunk i s).2.2 := by
  have hchecked := h.recheckOnce r i s
  unfold Reader.ensureChunk
  rcases hr : r.recheckOnce i s with ⟨e | u, r', s'⟩
  · rw [hr] at hchecked
    exact hchecked
  · rw [hr] at hchecked
    refine h.trans hchecked ?_
    have htrial := h.trial r'.fetcher i s'
    unfold Fetcher.trial at htrial
    dsimp only
    rcases he : r'.fetcher.ensure i s' with ⟨e | out, s''⟩
    · rw [he] at htrial
      exact htrial
    · rw [he] at htrial
      cases out with
      | alreadyVerified => exact htrial
      | joined => exact htrial
      | fetched n => exact htrial

theorem ensureChunks (l : List Nat) (r : Reader) (s : Site σ) :
    R r.fetcher s (Reader.ensureChunks l r s).2.1.fetcher (Reader.ensureChunks l r s).2.2 := by
  induction l generalizing r s with
  | nil => exact h.refl _ _
  | cons i rest ih =>
    have hfirst := h.ensureChunk r i s
    unfold Reader.ensureChunks
    rcases he : r.ensureChunk i s with ⟨e | u, r', s'⟩
    · rw [he] at hfirst
      exact hfirst
    · rw [he] at hfirst
      exact h.trans hfirst (ih r' s')

theorem fill (r : Reader) (range : ByteRange) (s : Site σ) :
    R r.fetcher s (r.fill range s).2.1.fetcher (r.fill range s).2.2 := by
  have hchunks := h.ensureChunks (r.fetcher.layout.overlapping range) r s
  unfold Reader.fill
  rcases he : Reader.ensureChunks (r.fetcher.layout.overlapping range) r s with ⟨e | u, r', s'⟩
  · rw [he] at hchunks
    exact hchunks
  · rw [he] at hchunks
    exact h.trans hchunks (h.look r'.fetcher range s')

theorem readRange (r : Reader) (range : ByteRange) (s : Site σ) :
    R r.fetcher s (r.readRange range s).2.1.fetcher (r.readRange range s).2.2 := by
  have hfill := h.fill r range s
  unfold Reader.readRange
  split
  · exact h.refl _ _
  · split
    · exact h.refl _ _
    · rcases hf : r.fill range s with ⟨e | b, r', s'⟩
      · rw [hf] at hfill
        exact hfill
      · rw [hf] at hfill
        dsimp only
        rw [(Reader.noteRead_fetcher r' range s'.ledger).1]
        exact hfill

theorem read (r : Reader) (range : ByteRange) (s : Site σ) :
    R r.fetcher s (r.read range s).2.1.fetcher (r.read range s).2.2 := by
  have hread := h.readRange r range s
  unfold Reader.read
  rcases hr : r.readRange range s with ⟨e | ⟨b, window⟩, r', s'⟩
  · rw [hr] at hread
    exact hread
  · rw [hr] at hread
    exact h.trans hread (h.readAhead r' window s')

end Routine
end Fetcher

/-! ### Any uses of a reader -/

namespace Reader

variable {σ : Type} [RangeSource σ]

/-- The chunks of a range, if reading it failed. -/
def missed {α : Type} (r : Reader) (range : ByteRange) : Except Error α → List Nat
  | .ok _ => []
  | .error _ => r.fetcher.layout.overlapping range

/-- A use of a reader. A cursor uses it by reads. -/
inductive Use where
  | read (range : ByteRange)
  | prebuffer (range : ByteRange)
  /-- A read that leaves its job to the background. -/
  | readRange (range : ByteRange)
  /-- A job in the background gets on by `n` chunks. -/
  | prefetch (j : Job) (n : Nat)
  /-- A job in the background ends. -/
  | settle (j : Job)

/-- Use a reader; what is told are the chunks of a read that failed. -/
def use (r : Reader) (s : Site σ) : Use → List Nat × Reader × Site σ
  | .read range =>
    let (result, r', s) := r.read range s
    (r.missed range result, r', s)
  | .prebuffer range => ([], (r.prebuffer range s).2)
  | .readRange range =>
    let (result, r', s) := r.readRange range s
    (r.missed range result, r', s)
  | .prefetch j n =>
    let (_, f, s) := j.advance n r.fetcher s
    ([], { r with fetcher := f }, s)
  | .settle j =>
    let (_, f, s) := j.finish r.fetcher s
    ([], { r with fetcher := f }, s)

/-- Use a reader several times. -/
def useAll : List Use → Reader → Site σ → List Nat × Reader × Site σ
  | [], r, s => ([], r, s)
  | u :: uses, r, s =>
    let (missed, r, s) := r.use s u
    let (missed', r, s) := useAll uses r s
    (missed ++ missed', r, s)

end Reader

namespace Fetcher.Routine

variable {σ : Type} [RangeSource σ] {R : Fetcher → Site σ → Fetcher → Site σ → Prop} (h : Routine R)
include h

theorem use (r : Reader) (u : Reader.Use) (s : Site σ) :
    R r.fetcher s (r.use s u).2.1.fetcher (r.use s u).2.2 := by
  cases u with
  | read range => exact h.read r range s
  | prebuffer range => exact h.prebuffer r range s
  | readRange range => exact h.readRange r range s
  | prefetch j n => exact h.advance j n r.fetcher s
  | settle j => exact h.finish j r.fetcher s

/-- What holds of the four ways to use a fetcher holds of any uses of a reader. -/
theorem useAll (uses : List Reader.Use) (r : Reader) (s : Site σ) :
    R r.fetcher s (Reader.useAll uses r s).2.1.fetcher (Reader.useAll uses r s).2.2 := by
  induction uses generalizing r s with
  | nil => exact h.refl _ _
  | cons u uses ih => exact h.trans (h.use r u s) (ih _ _)

end Fetcher.Routine

end VerifiedCopy
