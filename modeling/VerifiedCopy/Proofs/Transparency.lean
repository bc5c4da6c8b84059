/-
# Reading ahead makes no difference to what is read

Between two reads a reader may bring chunks in: it reads ahead, it is told to prebuffer a
range, and workers in the background carry this out side by side (`Reader.Yields`). On a
steady site where nothing is in flight this makes no difference: each read comes to what was
promised of its chunks in the beginning, with the same bytes or the same failure
(`yields_answered`), and so two readers that differ only in how they read ahead give the
same results (`reads_transparent`).

None of the provisos can be left out (`reads_not_transparent`). A chunk that somebody else is
fetching may come to nothing, and who comes after that fetches it again; saving the ledger may
go over the local file; if operations on the local file fail, it matters which chunk is
checked or written when; and so it does for a verified chunk past the end of the local file.

Key definitions: `Reader.crew`, `Reader.Yields`, `Reader.TransparentOn`.
Key theorems: `yields_answered`, `reads_transparent`, `reads_not_transparent`.
-/
import Mathlib.Data.List.Forall2
import VerifiedCopy.Proofs.Exactness
import VerifiedCopy.Proofs.Steady.Crew
import VerifiedCopy.Proofs.Steady.Reading

namespace VerifiedCopy
namespace Reader

open Site (Calm Covered Gains Prepared Ready Steady)

variable {σ : Type} [RangeSource σ] {t : Tree} {file : LocalFile} {f₀ : Fetcher}
  {answer : ByteRange → Except FetchError Bytes} {written : Nat → Bytes → Except Error Unit}
  {promised : Nat → Except Error Bytes} {r r' : Reader} {s s' : Site σ}
  {ranges : List ByteRange} {results results' : List (Except Error Bytes)}

/-! ### Sessions -/

/-- `n` workers with the fetcher of the reader, after some turns. -/
def crew (r : Reader) (n : Nat) (turns : List Turn) (s : Site σ) : Crew σ :=
  Crew.turns turns ⟨s, [r.fetcher], (List.replicate n 0).map fun k => (k, .idle)⟩

omit [RangeSource σ] in
/-- The reader with the fetcher that the workers leave behind. -/
def after (r : Reader) (c : Crew σ) : Reader :=
  { r with fetcher := c.fetchers.headD r.fetcher }

/-- A reader that gives `results` for the reads of `ranges`, one after the other, whatever chunks
are brought in between them. -/
inductive Yields : Reader → Site σ → List ByteRange → List (Except Error Bytes) → Prop
  | done (r : Reader) (s : Site σ) : Yields r s [] []
  | read {r : Reader} {s : Site σ} {range : ByteRange} {ranges : List ByteRange}
      {results : List (Except Error Bytes)}
      (h : Yields (r.read range s).2.1 (r.read range s).2.2 ranges results) :
      Yields r s (range :: ranges) ((r.read range s).1 :: results)
  /-- A read that leaves it to others to read ahead. -/
  | readRange {r : Reader} {s : Site σ} {range : ByteRange} {ranges : List ByteRange}
      {results : List (Except Error Bytes)}
      (h : Yields (r.readRange range s).2.1 (r.readRange range s).2.2 ranges results) :
      Yields r s (range :: ranges) ((r.readRange range s).1.map (·.1) :: results)
  | prebuffer {r : Reader} {s : Site σ} (range : ByteRange) {ranges : List ByteRange}
      {results : List (Except Error Bytes)}
      (h : Yields (r.prebuffer range s).2.1 (r.prebuffer range s).2.2 ranges results) :
      Yields r s ranges results
  /-- Workers in the background come to an end. -/
  | background {r : Reader} {s : Site σ} (n : Nat) (turns : List Turn) {ranges : List ByteRange}
      {results : List (Except Error Bytes)} (hrest : (r.crew n turns s).atRest = true)
      (h : Yields (r.after (r.crew n turns s)) (r.crew n turns s).site ranges results) :
      Yields r s ranges results

/-- Workers in the background keep the reader at its place. -/
theorem crew_steady (hf₀ : f₀.Serves t file)
    (h : Placed t file answer written f₀ promised r s) (n : Nat) (turns : List Turn)
    (hrest : (r.crew n turns s).atRest = true) :
    Placed t file answer written f₀ promised (r.after (r.crew n turns s))
      (r.crew n turns s).site := by
  obtain ⟨hprepared, htwins, hgains⟩ := Crew.turns_gains hf₀
    (List.forall_mem_singleton.2 h.twin) (List.replicate n 0) turns h.toPrepared hrest
  have htwin : f₀.Twin (r.after (r.crew n turns s)).fetcher := by
    unfold after
    cases hc : (r.crew n turns s).fetchers with
    | nil => exact h.twin
    | cons f rest => exact htwins f (hc ▸ List.mem_cons_self)
  refine h.moves (.of_leads (htwin.serves_iff.2 hf₀) rfl rfl fun _ => ?_) htwin hgains
  exact ⟨hprepared.toCalm, hgains.run⟩

/-- In a session every read comes to what was promised in the beginning. -/
theorem yields_answered (hf₀ : f₀.Serves t file) (h : Yields r s ranges results)
    (hs : Placed t file answer written f₀ promised r s) :
    List.Forall₂ (Answered t promised) ranges results := by
  induction h with
  | done => exact .nil
  | @read r s range ranges results _ ih =>
    obtain ⟨hanswered, hplaced⟩ := read_steady hf₀ hs range
    exact .cons hanswered (ih hplaced)
  | @readRange r s range ranges results _ ih =>
    obtain ⟨hanswered, hplaced⟩ := readRange_steady hf₀ hs range
    exact .cons hanswered (ih hplaced)
  | prebuffer range _ ih => exact ih (prebuffer_steady hf₀ hs range)
  | background n turns hrest _ ih => exact ih (crew_steady hf₀ hs n turns hrest)

/-- **Reading ahead is transparent.** Let a source answer by the range only, let the ledger be saved
whenever that is tried, and let nothing be in flight in the beginning. Then readers of one copy that
check local bytes, with any settings for reading ahead, give the same results for the same reads,
with any ranges prebuffered and any workers at work between them: the same bytes or the same
failure. This needs that saving the ledger does not touch the local file, that the chunks called
verified in the beginning lie inside of it, that what it has can be read, and that writing a chunk
comes out the same way each time. -/
theorem reads_transparent {entry : Entry} {transfer : TransferConfig}
    {config config' : ReaderConfig}
    (hr : Reader.create entry t s.ledger file transfer config = .ok r)
    (hr' : Reader.create entry t s.ledger file transfer config' = .ok r')
    (hcheck : config.recheckLocal = true) (hcheck' : config'.recheckLocal = true)
    (hs : s.Calm file) (hcovered : s.Covered t file) (hsteady : s.Steady t file answer written)
    (h : r.Yields s ranges results) (h' : r'.Yields s ranges results') : results = results' := by
  obtain ⟨rfl, hcount⟩ := eq_of_create hr
  obtain ⟨rfl, -⟩ := eq_of_create hr'
  let f₀ : Fetcher := { tree := t, localFile := file, config := transfer }
  obtain ⟨promised, hpromised⟩ : ∃ promised,
      Site.Promises t file (f₀.forecast answer written) promised s := Site.exists_promises _ s
  have hstart : ∀ config : ReaderConfig, config.recheckLocal = true →
      Placed t file answer written f₀ promised { fetcher := f₀, config } s := fun config hcheck => {
    toCalm := hs
    steady := hsteady
    count := hcount
    covered := hcovered
    twin := .refl f₀
    wary := .inr ⟨hcheck, fun i hi => absurd hi.1 List.not_mem_nil⟩
    promises := hpromised }
  -- Each read has one outcome only that keeps the promises of the beginning.
  have hserves : f₀.Serves t file := ⟨rfl, rfl⟩
  have hunique : Relator.RightUnique (Answered t promised) := fun _ _ _ ha hb => ha.unique hb
  exact hunique.forall₂ (yields_answered hserves h (hstart config hcheck))
    (yields_answered hserves h' (hstart config' hcheck'))

/-! ### The letters -/

/-- An empty copy of the letters, with a ledger in memory. -/
def fresh : Site (Logged ScriptedSource) := unread "d" (Ledger.empty 1)

/-- A reader of the letters, cut as the tree has it, that saves the ledger now and then. -/
def seldom (t : Tree) (p : Path) (config : ReaderConfig) : Reader where
  fetcher := ⟨t, Session.localCopy p, {}, 0⟩
  config := config

theorem create_seldom (p : Path) (config : ReaderConfig) {g : Ledger}
    (hsize : t.layout.totalSize = 8) (hg : g.chunkCount = t.leafCount) :
    Reader.create { remoteUrl := "", totalSize := 8 } t g (Session.localCopy p) {} config =
      .ok (seldom t p config) :=
  Reader.create_eq_ok_iff.2 ⟨hsize.symm, ⟨rfl, hg, hsize.symm⟩, rfl⟩

/-- Two reads with nothing between them. -/
def plainly (r : Reader) (range range' : ByteRange) (s : Site σ) : List (Except Error Bytes) :=
  let first := r.read range s
  [first.1, (first.2.1.read range' first.2.2).1]

/-- Two reads with the second range prebuffered between them. -/
def warmly (r : Reader) (range range' : ByteRange) (s : Site σ) : List (Except Error Bytes) :=
  let first := r.read range s
  let warm := first.2.1.prebuffer range' first.2.2
  [first.1, (warm.2.1.read range' warm.2.2).1]

theorem yields_plainly (r : Reader) (range range' : ByteRange) (s : Site σ) :
    r.Yields s [range, range'] (plainly r range range' s) :=
  .read (.read (.done _ _))

theorem yields_warmly (r : Reader) (range range' : ByteRange) (s : Site σ) :
    r.Yields s [range, range'] (warmly r range range' s) :=
  .read (.prebuffer range' (.read (.done _ _)))

/-- It makes no difference to the letters if every read is followed by reading ahead and all of
them are prebuffered. -/
theorem reads_transparent_letters :
    plainly (seldom Session.lettersTree "d" { readaheadChunks := 0 }) middle Session.allLetters
        fresh =
      warmly (seldom Session.lettersTree "d" { readaheadAfter := 0 }) middle Session.allLetters
        fresh := by
  have hsturdy : fresh.Sturdy (Session.localCopy "d") Session.letters.length :=
    unread_sturdy "d" rfl
  have hsteady := hsturdy.able.steady (t := Session.lettersTree) (D := Session.letters) rfl rfl
    (honest_of_plain rfl)
  exact reads_transparent (create_seldom "d" _ rfl rfl) (create_seldom "d" _ rfl rfl) rfl rfl
    ⟨hsturdy.toReady, rfl⟩ (fun i hi => absurd hi (Ledger.state_empty_ne_verified 1 i)) hsteady
    (yields_plainly _ _ _ _) (yields_warmly _ _ _ _)

/-- Reading ahead and prebuffering make no difference to readers that check local bytes, at those
sites of a kind on which the source has the content and the ledger can be saved. -/
def TransparentOn (kind : Tree → LocalFile → Site (Logged ScriptedSource) → Prop) : Prop :=
  ∀ (D : Bytes) (c : UInt32) (t : Tree) (file : LocalFile) (entry : Entry)
    (transfer : TransferConfig) (config config' : ReaderConfig) (r r' : Reader)
    (s : Site (Logged ScriptedSource)) (ranges : List ByteRange)
    (results results' : List (Except Error Bytes)),
    Tree.ofContent D c = .ok t → Reader.create entry t s.ledger file transfer config = .ok r →
    Reader.create entry t s.ledger file transfer config' = .ok r' →
    config.recheckLocal = true → config'.recheckLocal = true → s.disk.Knows file.handle →
    file.handle.writable = true → D.length < Disk.maxOffset →
    (∀ p, s.ledger.path = some p → s.disk.Clear p) → s.Honest t file D → kind t file s →
    r.Yields s ranges results → r'.Yields s ranges results' → results = results'

/-- A site on which no local file can be read. -/
def unreadable : Site (Logged ScriptedSource) :=
  { fresh with disk := { fresh.disk with
      weather := fun _ op _ => if op = .read then some ⟨.invalidArgument, 0⟩ else none } }

/-- A site on which the first operation fails if it is a write, and nothing after it. -/
def hesitant : Site (Logged ScriptedSource) :=
  { fresh with disk := { fresh.disk with
      weather := fun clock op _ =>
        if clock = 0 ∧ op = .write then some ⟨.noDevice, 0⟩ else none } }

/-- The letters in two chunks. -/
def partedTree : Tree :=
  ⟨⟨8, 5, by decide, by decide, by decide⟩,
    (heapOfLeaves [Digest.ofLeaf [97, 98, 99, 100, 101], Digest.ofLeaf [102, 103, 104]]).toArray,
    [Digest.ofLeaf [97, 98, 99, 100, 101], Digest.ofLeaf [102, 103, 104]], rfl, rfl⟩

/-- The first of two chunks is called verified, but the local file is empty. -/
def emptied : Site (Logged ScriptedSource) :=
  { unread "d" (((Ledger.empty 2).depart 0).settle 0 (.ok ())).2 with
    disk := { names := [("d", .file 0)], files := [[]] } }

/-- No letters at all. -/
def noLetters : ByteRange := ⟨0, 0, Nat.le_refl 0⟩

/-- If nothing makes a difference at the sites of a kind, prebuffering the letters before they are
read does not. -/
theorem TransparentOn.letters {kind : Tree → LocalFile → Site (Logged ScriptedSource) → Prop}
    (h : TransparentOn kind) {c : UInt32} (ht : Tree.ofContent Session.letters c = .ok t) (p : Path)
    (range : ByteRange) {s : Site (Logged ScriptedSource)}
    (hcount : s.ledger.chunkCount = t.leafCount) (hfile : s.disk.files ≠ [])
    (hclear : ∀ q, s.ledger.path = some q → s.disk.Clear q)
    (hsource : s.source.inner = { bytes := Session.letters })
    (hkind : kind t (Session.localCopy p) s) :
    plainly (seldom t p { readaheadChunks := 0 }) range Session.allLetters s =
      warmly (seldom t p { readaheadChunks := 0 }) range Session.allLetters s := by
  have hsize : t.layout.totalSize = 8 := (Tree.length_of_content ht).symm
  exact h Session.letters c t (Session.localCopy p) _ _ _ _ _ _ s _ _ _ ht
    (create_seldom p _ hsize hcount) (create_seldom p _ hsize hcount) rfl rfl
    (List.length_pos_iff.2 hfile) rfl (by decide) hclear (honest_of_plain hsource) hkind
    (yields_plainly _ _ _ _) (yields_warmly _ _ _ _)

/-- A chunk that somebody else is fetching comes to nothing for a read, and is fetched again if the
letters were prebuffered first; saving the ledger after prebuffering goes over bytes that were
checked before; a file that cannot be read fails when the bytes are given out, or earlier when they
are checked; if only the first write fails, it matters whose it is; and a chunk past the end of the
local file cannot be checked, unless a later chunk was written before. -/
theorem reads_not_transparent :
    ¬ TransparentOn (fun t file s => Ready file s ∧ Covered t file s ∧ s.disk.Fair) ∧
      ¬ TransparentOn (fun t file s => s.ledger.inFlight = [] ∧ Covered t file s ∧ s.disk.Fair) ∧
      ¬ TransparentOn (fun t file s => Calm file s ∧ Covered t file s ∧
        ∀ clock op p, op ≠ .read → s.disk.weather clock op p = none) ∧
      ¬ TransparentOn (fun t file s => Calm file s ∧ Covered t file s ∧
        ∀ clock op p, op ≠ .write → s.disk.weather clock op p = none) ∧
      ¬ TransparentOn (fun _ file s => Calm file s ∧ s.disk.Fair) := by
  have hfresh : ∀ {s : Site (Logged ScriptedSource)}, (∀ i, s.ledger.state i ≠ .verified) →
      ∀ t file, Covered t file s := fun hnew _ _ i hi => absurd hi (hnew i)
  have hempty := Ledger.state_empty_ne_verified 1
  have hawaited : ∀ i, awaited.ledger.state i ≠ .verified := by
    intro i hi
    have hstate := (Ledger.state_depart (g := Ledger.empty 1) Nat.zero_lt_one i).symm.trans hi
    split at hstate
    · cases hstate
    · exact hempty i hstate
  refine ⟨fun h => ?_, fun h => ?_, fun h => ?_, fun h => ?_, fun h => ?_⟩
  · have hsame := h.letters tree_of_letters "d" noLetters (s := awaited) rfl nofun nofun rfl
      ⟨⟨Nat.zero_lt_one, nofun⟩, hfresh hawaited _ _, fun _ _ _ => rfl⟩
    exact absurd hsame (by decide +kernel)
  · have hsame := h.letters tree_of_letters "s.tmp" Session.allLetters (s := aliased) rfl nofun
      (fun _ => aliased_clear) rfl ⟨rfl, hfresh hempty _ _, fun _ _ _ => rfl⟩
    exact absurd hsame (by decide +kernel)
  · have hsame := h.letters tree_of_letters "d" noLetters (s := unreadable) rfl nofun nofun rfl
      ⟨⟨⟨Nat.zero_lt_one, nofun⟩, rfl⟩, hfresh hempty _ _, fun _ _ _ hne => if_neg hne⟩
    exact absurd hsame (by decide +kernel)
  · have hsame := h.letters tree_of_letters "d" noLetters (s := hesitant) rfl nofun nofun rfl
      ⟨⟨⟨Nat.zero_lt_one, nofun⟩, rfl⟩, hfresh hempty _ _,
        fun _ _ _ hne => if_neg fun ⟨_, hop⟩ => hne hop⟩
    exact absurd hsame (by decide +kernel)
  · have hsame := h.letters (t := partedTree) (c := 5) rfl "d" noLetters (s := emptied) rfl nofun
      nofun rfl ⟨⟨⟨Nat.zero_lt_one, nofun⟩, rfl⟩, fun _ _ _ => rfl⟩
    exact absurd hsame (by decide +kernel)

end Reader
end VerifiedCopy
