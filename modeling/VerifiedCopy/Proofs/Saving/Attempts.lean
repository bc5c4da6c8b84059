/-
# What is counted is what came after the last attempt

A fetcher counts the chunks that were fetched, saves the ledger every so many of them or when it is
told to, and starts the count again before it saves. So the count is that of the chunks noted since
the last attempt to save the ledger, whether the attempt succeeded or not (`sincePersist_tallied`).
Nothing else brings the saving about that takes place when the fetcher is given up: while the count
is not zero that saving is attempted, and if it succeeds the sidecar has every verified chunk
(`attempts_counted`).

After an attempt that failed the count is zero all the same. If nothing is noted after it, the
chunks that were to be saved are not saved when the fetcher is given up
(`failed_saving_forgotten`).

Key definitions: `Tally`, `Fetcher.tallied`, `sinceAttempt`, `sinceSaved`, `LastLost`.
Key theorems: `tally_cases`, `sincePersist_tallied`, `attempts_counted`.
-/
import VerifiedCopy.Proofs.Saving.Outcomes
import VerifiedCopy.Proofs.Team

namespace VerifiedCopy

variable {σ : Type}

/-! ### Calls and what becomes of them -/

/-- A call that has to do with the count. -/
inductive Tally where
  /-- A fetched chunk is noted. -/
  | note
  /-- The ledger is to be saved now. -/
  | flush
deriving DecidableEq

/-- What became of a call. -/
inductive Happening where
  /-- A chunk was noted, and it was not time to save the ledger. -/
  | counted
  /-- The ledger was saved. -/
  | saved
  /-- The ledger was to be saved, and that failed; a chunk was noted or not. -/
  | lost (noted : Bool)
deriving DecidableEq

/-- How many chunks were noted since the last attempt to save the ledger, the latest call first. -/
def sinceAttempt : List Happening → Nat
  | .counted :: earlier => sinceAttempt earlier + 1
  | _ => 0

/-- How many chunks were noted since the ledger was last saved. -/
def sinceSaved : List Happening → Nat
  | .counted :: earlier => sinceSaved earlier + 1
  | .lost noted :: earlier => sinceSaved earlier + noted.toNat
  | _ => 0

/-- The last attempt to save the ledger has failed. -/
def LastLost : List Happening → Prop
  | .counted :: earlier => LastLost earlier
  | .lost _ :: _ => True
  | _ => False

/-- Unless the last attempt has failed, the two counts are the same. -/
theorem sinceSaved_eq : ∀ {history : List Happening}, ¬ LastLost history →
    sinceSaved history = sinceAttempt history
  | [], _ => rfl
  | .counted :: _, h => congrArg (· + 1) (sinceSaved_eq h)
  | .saved :: _, _ => rfl
  | .lost _ :: _, h => absurd trivial h

namespace Fetcher

variable {f : Fetcher} {s : Site σ} {p : Path}

/-- Make a call. -/
def tally (f : Fetcher) (s : Site σ) : Tally → Except Error Unit × Fetcher × Site σ
  | .note => f.noteFetched s
  | .flush => f.flush s

/-- Whether a call attempts to save the ledger. -/
def attempting (f : Fetcher) : Tally → Bool
  | .note => f.count.1
  | .flush => true

/-- What becomes of a call. -/
def happening (f : Fetcher) (s : Site σ) (c : Tally) : Happening :=
  if f.attempting c then
    match s.persist.1 with
    | .ok () => .saved
    | .error _ => .lost (c == .note)
  else .counted

/-- The fetcher after some calls, and what became of them, the latest first in both lists. Each
call finds its own site: between two calls anything may happen to it. -/
def tallied (f : Fetcher) : List (Tally × Site σ) → Fetcher × List Happening
  | [] => (f, [])
  | (c, s) :: earlier =>
    let (f, history) := f.tallied earlier
    ((f.tally s c).2.1, f.happening s c :: history)

theorem count_snd (f : Fetcher) : f.count.2 =
    { f with sincePersist := if f.count.1 = true then 0 else f.sincePersist + 1 } := by
  unfold count
  split <;> rfl

/-- A call counts a chunk and leaves the site as it is, or saves the ledger or fails to. The count
starts again with the attempt, and the call fails if the attempt does. -/
theorem tally_cases (f : Fetcher) (s : Site σ) (c : Tally) :
    (c = .note ∧ f.happening s c = .counted ∧
      f.tally s c = (.ok (), { f with sincePersist := f.sincePersist + 1 }, s)) ∨
    (s.persist.1 = .ok () ∧ f.happening s c = .saved ∧
      f.tally s c = (.ok (), { f with sincePersist := 0 }, s.persist.2)) ∨
    ∃ e, s.persist.1 = .error e ∧ f.happening s c = .lost (c == .note) ∧
      f.tally s c = (.error e, { f with sincePersist := 0 }, s.persist.2) := by
  unfold happening
  by_cases h : f.attempting c = true
  · have htally : f.tally s c = (s.persist.1, { f with sincePersist := 0 }, s.persist.2) := by
      cases c with
      | flush => rfl
      | note =>
        have hdue : f.count.1 = true := h
        show f.noteFetched s = _
        rw [noteFetched_eq_count, if_pos hdue, count_snd, if_pos hdue]
    rw [htally, if_pos h]
    right
    cases s.persist.1 with
    | ok u => exact .inl ⟨rfl, rfl, rfl⟩
    | error e => exact .inr ⟨e, rfl, rfl, rfl⟩
  · rw [if_neg h]
    left
    cases c with
    | flush => exact absurd rfl h
    | note =>
      have hdue : ¬ f.count.1 = true := h
      refine ⟨rfl, rfl, ?_⟩
      show f.noteFetched s = _
      rw [noteFetched_eq_count, if_neg hdue, count_snd, if_neg hdue]

/-- The count is that of the chunks noted since the last attempt. -/
theorem sincePersist_tallied (hf : f.sincePersist = 0) (calls : List (Tally × Site σ)) :
    (f.tallied calls).1.sincePersist = sinceAttempt (f.tallied calls).2 := by
  induction calls with
  | nil => exact hf
  | cons call earlier ih =>
    obtain ⟨c, s⟩ := call
    show ((f.tallied earlier).1.tally s c).2.1.sincePersist =
      sinceAttempt ((f.tallied earlier).1.happening s c :: (f.tallied earlier).2)
    rcases (f.tallied earlier).1.tally_cases s c with
      ⟨-, h, ht⟩ | ⟨-, h, ht⟩ | ⟨e, -, h, ht⟩
    · rw [h, ht]
      exact congrArg (· + 1) ih
    · rw [h, ht]
      rfl
    · rw [h, ht]
      rfl

/-! ### Giving the fetcher up -/

/-- A ledger that was saved is found in its sidecar, with every verified chunk. -/
theorem persist_records (hp : s.ledger.path = some p) (hsmall : s.ledger.chunkCount < UInt32.size)
    (hl : s.disk.Linked) (hok : s.persist.1 = .ok ()) :
    ∃ b g, s.persist.2.disk.content? p = some b ∧ Ledger.restore b = .ok g ∧
      ∀ i, s.ledger.state i = .verified → g.state i = .verified := by
  rw [Site.persist_of_path hp] at hok ⊢
  rcases Disk.save_cases hl p s.ledger.snapshot with ⟨c, text, d, h, -⟩ | ⟨id, d, h, hsaved⟩
  · rw [h] at hok
    cases hok
  · rw [h]
    refine ⟨_, _, hsaved.content?, Ledger.restore_snapshot hsmall, fun i hi => ?_⟩
    rw [Ledger.state_landed (by rw [hi]; decide)]
    exact hi

/-- **What an attempt leaves to be saved.** After any calls to note a chunk or to save the ledger,
each of which may fail to save it: the count is the number of chunks noted since the last attempt,
and if that attempt did not fail, the number of those noted since the ledger was last saved. When
the fetcher is given up, a count that is not zero brings another attempt about, after which, if it
succeeds, the sidecar has every verified chunk; with a count of zero nothing is done. -/
theorem attempts_counted (f : Fetcher) (hf : f.sincePersist = 0) (calls : List (Tally × Site σ)) :
    (f.tallied calls).1.sincePersist = sinceAttempt (f.tallied calls).2 ∧
    (¬ LastLost (f.tallied calls).2 →
      (f.tallied calls).1.sincePersist = sinceSaved (f.tallied calls).2) ∧
    ∀ s : Site σ,
      (0 < sinceAttempt (f.tallied calls).2 → (f.tallied calls).1.close s = s.persist.2 ∧
        ∀ p, s.ledger.path = some p → s.ledger.chunkCount < UInt32.size → s.disk.Linked →
          s.persist.1 = .ok () → ∃ b g,
            ((f.tallied calls).1.close s).disk.content? p = some b ∧ Ledger.restore b = .ok g ∧
              ∀ i, s.ledger.state i = .verified → g.state i = .verified) ∧
      (sinceAttempt (f.tallied calls).2 = 0 → (f.tallied calls).1.close s = s) := by
  have hcount := sincePersist_tallied hf calls
  refine ⟨hcount, fun hlost => ?_, fun s => ⟨fun hpos => ?_, fun hzero => ?_⟩⟩
  · rw [hcount, sinceSaved_eq hlost]
  · have hclose : (f.tallied calls).1.close s = s.persist.2 := by
      unfold close
      rw [hcount, if_pos hpos]
    refine ⟨hclose, fun p hp hsmall hl hok => ?_⟩
    rw [hclose]
    exact persist_records hp hsmall hl hok
  · unfold close
    rw [hcount, hzero]
    rfl

/-- An empty copy with the letters already in the ledger. -/
def arrived : Site ScriptedSource where
  ledger := (lettersFetcher.ensure 0 (Session.emptyCopy "d")).2.ledger
  disk := (Session.emptyCopy "d").disk
  source := (Session.emptyCopy "d").source

/-- What fetched the letters, after they were noted, and what became of that. -/
def notedOnce : Fetcher × List Happening := lettersFetcher.tallied [(.note, arrived)]

theorem attempts_counted_letters :
    lettersFetcher.sincePersist = 0 ∧ sinceAttempt notedOnce.2 = 1 ∧
      ∃ b g, (notedOnce.1.close arrived).disk.content? "s" = some b ∧
        Ledger.restore b = .ok g ∧ g.state 0 = .verified := by
  have hone : sinceAttempt notedOnce.2 = 1 := by decide +kernel
  have hlinked : arrived.disk.Linked := by
    intro p id hid
    obtain ⟨before, after, hnames, -⟩ := List.lookup_eq_some_iff.1 hid
    have hmem : (p, Node.file id) ∈ arrived.disk.names := by simp [hnames]
    cases List.mem_singleton.1 hmem
    exact Nat.zero_lt_one
  have hsaved : arrived.persist.1.toOption = some () := by decide +kernel
  obtain ⟨-, -, hclose⟩ := attempts_counted lettersFetcher rfl [(.note, arrived)]
  obtain ⟨-, hrecords⟩ := (hclose arrived).1 (Nat.lt_of_lt_of_eq Nat.zero_lt_one hone.symm)
  obtain ⟨b, g, hb, hg, hverified⟩ := hrecords "s" (by decide +kernel) (by decide +kernel) hlinked
    (eq_ok_of_toOption hsaved)
  exact ⟨rfl, hone, b, g, hb, hg, hverified 0 (by decide +kernel)⟩

/-- What fetches the letters and saves the ledger after each chunk. -/
def eagerFetcher : Fetcher := { lettersFetcher with config := { persistEvery := 1 } }

/-- The letters are in the ledger, which cannot be saved: a directory has the temporary name. -/
def blocked : Site ScriptedSource :=
  { arrived with disk := { arrived.disk with names := [("d", .file 0), ("s.tmp", .directory)] } }

/-- A chunk was noted since the ledger was last saved, and the count is zero: the attempt to save it
has failed, and is not made again. -/
theorem failed_saving_forgotten : ¬ ∀ (f : Fetcher) (calls : List (Tally × Site ScriptedSource)),
    f.sincePersist = 0 → 0 < sinceSaved (f.tallied calls).2 →
      0 < (f.tallied calls).1.sincePersist := by
  intro h
  have hpos := h eagerFetcher [(.note, blocked)] rfl (by decide +kernel)
  have hzero : (eagerFetcher.tallied [(.note, blocked)]).1.sincePersist = 0 := by decide +kernel
  omega

end Fetcher
end VerifiedCopy
