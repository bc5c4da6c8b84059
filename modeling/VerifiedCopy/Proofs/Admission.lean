/-
# Accepted trees

A transfer and a reader are given an entry and a tree for it, with a ledger and a local
file. Both insist that the settings make sense, that the tree has the size of the entry
and that the ledger and the file fit the tree. Only a transfer asks for the published root
as well; so a reader can be had for just the trees that a transfer accepts and for those
that have another root (`published_root_enforced`). A cache compares the roots before it
gives out either.

Key theorems: `Job.create_accepts_iff`, `Entry.check_eq_ok_iff`, `download_accepts_iff`,
`Reader.create_accepts_iff`, `published_root_enforced`.
-/
import VerifiedCopy.Proofs.Cache.Trees

namespace VerifiedCopy

variable {transfer : TransferConfig} {entry : Entry} {t : Tree} {g : Ledger} {file : LocalFile}
  {indices : List Nat}

/-! ### The chunks of a job -/

/-- A job can be had for chunks that exist. -/
theorem Job.create_accepts_iff {l : Layout} :
    (∃ j, Job.create l g indices = .ok j) ↔ ∀ i ∈ indices, i < l.chunkCount := by
  constructor
  · rintro ⟨j, hj⟩ i hi
    unfold Job.create at hj
    split at hj
    · cases hj
    · rename_i hnone
      rw [List.min?_eq_none_iff, List.filter_eq_nil_iff] at hnone
      exact Nat.not_le.1 fun hle => hnone i hi (decide_eq_true hle)
  · intro hin
    obtain ⟨j, hj, -⟩ := Job.create_of_inside g hin
    exact ⟨j, hj⟩

/-! ### The tree of an entry -/

theorem Entry.check_eq_ok_iff : entry.check t = .ok () ↔
    entry.totalSize = t.layout.totalSize ∧
      ∀ root, entry.publishedRoot = some root → root = t.root := by
  unfold Entry.check
  by_cases hsize : entry.totalSize = t.layout.totalSize
  · simp [hsize, Entry.checkRoot_eq_ok_iff]
  · simp [hsize]

/-- A tree that is refused is refused for what it is. -/
theorem Entry.check_error {e : Error} (h : entry.check t = .error e) :
    ∃ a b, e = .treeMismatch a b := by
  unfold Entry.check at h
  split at h
  · unfold Entry.checkRoot at h
    split at h
    · cases h
    · split at h
      · cases h
      · cases h
        exact ⟨_, _, rfl⟩
  · cases h
    exact ⟨_, _, rfl⟩

/-! ### Transfers and readers -/

section

variable {σ : Type} [RangeSource σ]

theorem prepareDownload_accepts_iff :
    (∃ p, prepareDownload transfer entry t g file indices = .ok p) ↔
      entry.check t = .ok () ∧ Fits transfer t g file ∧ ∀ i ∈ indices, i < t.leafCount := by
  constructor
  · rintro ⟨⟨f, j⟩, h⟩
    obtain ⟨hcheck, hfits, -, hj⟩ := prepareDownload_eq_ok_iff.1 h
    exact ⟨hcheck, hfits, Job.create_accepts_iff.1 ⟨j, hj⟩⟩
  · rintro ⟨hcheck, hfits, hin⟩
    obtain ⟨j, hj⟩ := (Job.create_accepts_iff (g := g)).2 hin
    exact ⟨_, prepareDownload_eq_ok_iff.2 ⟨hcheck, hfits, rfl, hj⟩⟩

/-- A transfer starts if the tree is the entry's, the parts fit and the chunks exist. -/
theorem download_accepts_iff {s : Site σ} :
    (∃ job, (download transfer entry t file indices s).1 = .ok job) ↔
      entry.check t = .ok () ∧ Fits transfer t s.ledger file ∧
        ∀ i ∈ indices, i < t.leafCount := by
  rw [← prepareDownload_accepts_iff]
  unfold download
  rcases prepareDownload transfer entry t s.ledger file indices with e | ⟨f, j⟩
  · exact iff_of_false (fun ⟨_, h⟩ => nomatch h) (fun ⟨_, h⟩ => nomatch h)
  · exact iff_of_true ⟨_, rfl⟩ ⟨_, rfl⟩

/-- A reader can be had if the tree has the size of the entry and the parts fit. -/
theorem Reader.create_accepts_iff {config : ReaderConfig} :
    (∃ r, Reader.create entry t g file transfer config = .ok r) ↔
      entry.totalSize = t.layout.totalSize ∧ Fits transfer t g file := by
  constructor
  · rintro ⟨r, hr⟩
    obtain ⟨hsize, hfits, -⟩ := Reader.create_eq_ok_iff.1 hr
    exact ⟨hsize, hfits⟩
  · rintro ⟨hsize, hfits⟩
    exact ⟨_, Reader.create_eq_ok_iff.2 ⟨hsize, hfits, rfl⟩⟩

/-- A tree that does not agree with the entry is refused before anything is done. -/
theorem download_of_refused {e : Error} (hvalid : transfer.validate = .ok ())
    (h : entry.check t = .error e) (s : Site σ) :
    download transfer entry t file indices s = (.error e, s) := by
  unfold download prepareDownload
  rw [hvalid, h]
  rfl

/-- Where the published root is asked for. A transfer refuses a tree with another root, and
nothing else happens. It accepts a tree for some chunks exactly if these exist, the tree has
the published root and a reader can be had for it. The tree of an open cache has the
published root. -/
theorem published_root_enforced (transfer : TransferConfig) (entry : Entry) (t : Tree)
    (file : LocalFile) (s : Site σ) :
    (∀ root, entry.publishedRoot = some root → root ≠ t.root → transfer.validate = .ok () →
      ∀ indices, ∃ a b,
        download transfer entry t file indices s = (.error (.treeMismatch a b), s)) ∧
    (∀ indices config, (∃ job, (download transfer entry t file indices s).1 = .ok job) ↔
      (∀ i ∈ indices, i < t.leafCount) ∧
        (∀ root, entry.publishedRoot = some root → root = t.root) ∧
        ∃ r, Reader.create entry t s.ledger file transfer config = .ok r) ∧
    ∀ path config d c g d', Cache.openAt entry path config d = (.ok (c, g), d') →
      ∀ root, entry.publishedRoot = some root → root = c.tree.root := by
  refine ⟨fun root hroot hne hvalid indices => ?_, fun indices config => ?_,
    fun path config d c g d' hopen root hroot => Cache.root_of_openAt hopen hroot⟩
  · cases hcheck : entry.check t with
    | ok u => exact absurd ((Entry.check_eq_ok_iff.1 hcheck).2 root hroot) hne
    | error e =>
      obtain ⟨a, b, rfl⟩ := Entry.check_error hcheck
      exact ⟨a, b, download_of_refused hvalid hcheck s⟩
  · rw [download_accepts_iff, Entry.check_eq_ok_iff, Reader.create_accepts_iff]
    constructor
    · rintro ⟨⟨hsize, hroot⟩, hfits, hin⟩
      exact ⟨hin, hroot, hsize, hfits⟩
    · rintro ⟨hin, hroot, hsize, hfits⟩
      exact ⟨⟨hsize, hroot⟩, hfits, hin⟩

end

/-- The entry of the letters with a root that is not theirs. -/
def misnamedEntry : Entry where
  remoteUrl := ""
  totalSize := 8
  explicitRoot := some Cache.noDigest

theorem published_root_enforced_misnamed :
    misnamedEntry.publishedRoot = some Cache.noDigest ∧
      Cache.noDigest ≠ Session.lettersTree.root ∧
      ({} : TransferConfig).validate = .ok () ∧
      ∃ a b, download {} misnamedEntry Session.lettersTree (Session.localCopy "d") [0]
        Fetcher.loggedCopy = (.error (.treeMismatch a b), Fetcher.loggedCopy) := by
  have hne : Cache.noDigest ≠ Session.lettersTree.root := by decide +kernel
  exact ⟨rfl, hne, rfl, (published_root_enforced {} misnamedEntry Session.lettersTree
    (Session.localCopy "d") Fetcher.loggedCopy).1 _ rfl hne rfl [0]⟩

/-- A reader is given out for a tree with another root, and it asks the source. -/
theorem reader_of_misnamed_root :
    (∃ root, misnamedEntry.publishedRoot = some root ∧ root ≠ Session.lettersTree.root) ∧
      Fits {} Session.lettersTree Fetcher.loggedCopy.ledger (Session.localCopy "d") ∧
      Reader.create misnamedEntry Session.lettersTree Fetcher.loggedCopy.ledger
        (Session.localCopy "d") {} {} = .ok Reader.lettersReader ∧
      (Reader.lettersReader.read Session.allLetters Fetcher.loggedCopy).2.2.source.requests =
        [Session.allLetters] := by
  have hne : Cache.noDigest ≠ Session.lettersTree.root := by decide +kernel
  exact ⟨⟨_, rfl, hne⟩, ⟨rfl, rfl, rfl⟩, rfl, by decide +kernel⟩

end VerifiedCopy
