/-
# Openings that fail

An opening checks the settings and the names, takes the tree, compares it with the entry,
and goes on to the data file and the ledger; it can be refused at each of these points
(`Course`). Nothing is assumed about the weather: any operation may fail.

Work on the tree leaves the data file and the ledger alone, if neither is the tree's
temporary file by another name (`Disk.Separate`). The data file is opened before the
ledger is looked at. So whatever goes wrong, the ledger is as it was; and so is the data
file, except that one that was missing or had another size may have been made, cut or
filled up by then (`opening_refused`).

Key definitions: `Disk.SameAt`, `Disk.Separate`, `Cache.Course`, `Cache.Unfinished`.
Key theorems: `openSized_cases`, `openAt_course`, `loadTree_cases`, `openFiles_keeps`,
`opening_refused`.
-/
import VerifiedCopy.Proofs.Cache.Sessions
import VerifiedCopy.Proofs.Saving.Outcomes

namespace VerifiedCopy

open Sidecar (treePath statePath)

theorem Bytes.resize_of_length {b : Bytes} {size : Nat} (h : b.length = size) :
    b.resize size = b := by
  unfold resize
  rw [← h, List.take_length, Nat.sub_self, List.replicate_zero, List.append_nil]

namespace Disk

variable {d d' : Disk} {path p q : Path} {b : Bytes} {id : Nat}

/-! ### Names that keep what they have -/

/-- The name leads to what it led to, with the content that was there. -/
structure SameAt (p : Path) (d d' : Disk) : Prop where
  node : d'.node? p = d.node? p
  content : d'.content? p = d.content? p

theorem SameAt.refl (p : Path) (d : Disk) : SameAt p d d := ⟨rfl, rfl⟩

theorem SameAt.has (h : SameAt p d d') : d'.has p = d.has p := congrArg Option.isSome h.node

theorem SameAt.trans {d'' : Disk} (h : SameAt p d d') (h' : SameAt p d' d'') : SameAt p d d'' :=
  ⟨h'.node.trans h.node, h'.content.trans h.content⟩

theorem Confined.sameAt {names written : List Path} (h : Confined names written d d')
    (hl : d.Linked) (hp : p ∉ names)
    (hown : ∀ id, d.node? p = some (.file id) → ∀ q ∈ written, d.node? q ≠ some (.file id)) :
    SameAt p d d' :=
  ⟨h.node p hp, h.content? hl hp hown⟩

theorem linked_of_names (h : ∀ e ∈ d.names, ∀ id, e.2 = .file id → id < d.files.length) :
    d.Linked := by
  intro p id hp
  obtain ⟨before, after, hnames, -⟩ := List.lookup_eq_some_iff.1 hp
  have hmem : (p, Node.file id) ∈ d.names := by simp [hnames]
  exact h _ hmem id rfl

theorem linked_empty : Linked {} := linked_of_names (List.forall_mem_nil _)

theorem node?_of_not_has (h : d.has p = false) : d.node? p = none := by
  unfold has at h
  exact Option.isNone_iff_eq_none.1 (Option.isSome_eq_false_iff.1 h)

/-- The data file and the ledger of the cache at `path`, as far as they are there, are two
files, and neither is left over as the temporary file of the tree. -/
structure Separate (d : Disk) (path : Path) : Prop where
  linked : d.Linked
  two : ∀ id, d.node? (statePath path) = some (.file id) → d.node? path ≠ some (.file id)
  data : ∀ id, d.node? path = some (.file id) →
    d.node? (temporaryFor (treePath path)) ≠ some (.file id)
  state : ∀ id, d.node? (statePath path) = some (.file id) →
    d.node? (temporaryFor (treePath path)) ≠ some (.file id)

/-- The names of the tree are not those of the other files. -/
theorem not_mem_treeNames (path : Path) {s : String} (h : s ≠ ".mref") (h' : s ≠ ".mref.tmp") :
    path ++ s ∉ [treePath path, temporaryFor (treePath path)] := by
  rw [List.mem_cons, List.mem_singleton, not_or, treePath, temporaryFor_append]
  exact ⟨append_ne path h, append_ne path h'⟩

/-- Work on the tree leaves the data file and the ledger alone. -/
theorem Separate.sameAt (hd : d.Separate path) (h : Confined
      [treePath path, temporaryFor (treePath path)] [temporaryFor (treePath path)] d d') :
    SameAt path d d' ∧ SameAt (statePath path) d d' := by
  have hpath := not_mem_treeNames path (s := "") (by decide) (by decide)
  rw [String.append_empty] at hpath
  have hstate := not_mem_treeNames path (s := ".mrkl") (by decide) (by decide)
  refine ⟨h.sameAt hd.linked hpath fun id hid q hq => ?_,
    h.sameAt hd.linked hstate fun id hid q hq => ?_⟩
  · rw [List.mem_singleton.1 hq]
    exact hd.data id hid
  · rw [List.mem_singleton.1 hq]
    exact hd.state id hid

/-! ### The data file -/

/-- Room for a file that is to grow is made, or not. -/
theorem Placed.reserve_cases (hp : Placed d q b id d') {size : Nat} (hlt : b.length < size) :
    ∃ b', (b' = b ∨ b' = b.resize size) ∧
      Placed d q b' id (d'.reserve ⟨q, .file id, true⟩ size).2 := by
  unfold Disk.reserve tick
  cases d'.weather d'.clock .reserve q with
  | some f => exact ⟨b, .inl rfl, hp.clock _⟩
  | none =>
    dsimp only
    split
    · exact ⟨b, .inl rfl, hp.clock _⟩
    · have hcontent : ({ d' with clock := d'.clock + 1 } : Disk).content id = b := hp.content
      rw [hcontent, Nat.max_eq_left (Nat.le_of_lt hlt)]
      exact ⟨_, .inr rfl, (hp.clock _).setContent _⟩

/-- A file is cut or filled up, or left. -/
theorem Placed.resize_cases (hp : Placed d q b id d') (size : Nat) :
    ∃ r b' d'', d'.resize ⟨q, .file id, true⟩ size = (r, d'') ∧
      (b' = b ∨ b' = b.resize size) ∧ Placed d q b' id d'' := by
  unfold Disk.resize tick
  cases d'.weather d'.clock .resize q with
  | some f => exact ⟨_, b, _, rfl, .inl rfl, hp.clock _⟩
  | none =>
    dsimp only
    split
    · exact ⟨_, b, _, rfl, .inl rfl, hp.clock _⟩
    · have hcontent : ({ d' with clock := d'.clock + 1 } : Disk).content id = b := hp.content
      rw [hcontent]
      exact ⟨_, _, _, rfl, .inr rfl, (hp.clock _).setContent _⟩

/-- A file that is given its size is cut or filled up, or left. -/
theorem Placed.fit_cases (hp : Placed d q b id d') (size : Nat) :
    ∃ r b' d'', LocalFile.fit ⟨q, .file id, true⟩ size b.length d' = (r, d'') ∧
      (b' = b ∨ b' = b.resize size) ∧ Placed d q b' id d'' ∧
      ∀ f, r = .ok f → f = ⟨⟨q, .file id, true⟩, size, false⟩ := by
  unfold LocalFile.fit
  by_cases hlen : b.length = size
  · rw [if_pos hlen]
    exact ⟨_, b, d', rfl, .inl rfl, hp, fun f hf => (Except.ok.inj hf).symm⟩
  · rw [if_neg hlen]
    obtain ⟨b₁, hb₁, h₁⟩ : ∃ b₁, (b₁ = b ∨ b₁ = b.resize size) ∧ Placed d q b₁ id
        (if b.length < size then (d'.reserve ⟨q, .file id, true⟩ size).2 else d') := by
      split
      · rename_i hlt
        exact hp.reserve_cases hlt
      · exact ⟨b, .inl rfl, hp⟩
    obtain ⟨r, b₂, d₂, h, hb₂, h₂⟩ := h₁.resize_cases size
    have hb : b₂ = b ∨ b₂ = b.resize size := by
      rcases hb₁ with rfl | rfl
      · exact hb₂
      · rw [Bytes.resize_of_length (Bytes.length_resize b size), or_self] at hb₂
        exact .inr hb₂
    dsimp only
    rw [h]
    cases r with
    | error e => exact ⟨_, b₂, d₂, rfl, hb, h₂, fun f hf => nomatch hf⟩
    | ok u => exact ⟨_, b₂, d₂, rfl, hb, h₂, fun f hf => (Except.ok.inj hf).symm⟩

/-- The data file is opened or made, and has the content that it had, or that content cut
or filled up to the right size; or nothing happens. -/
theorem openSized_cases (hl : d.Linked) (path : Path) (size : Nat) :
    (∃ e clock, LocalFile.openSized path size d = (.error e, { d with clock })) ∨
    ∃ r id b d', LocalFile.openSized path size d = (r, d') ∧ Placed d path b id d' ∧
      (b = d.held path ∨ b = (d.held path).resize size) ∧
      ∀ f, r = .ok f → f = ⟨⟨path, .file id, true⟩, size, false⟩ := by
  unfold LocalFile.openSized
  rcases d.openWrite_placed hl path with ⟨e, clock, h⟩ | ⟨id, d₁, h, h₁⟩
  · rw [h]
    exact .inl ⟨_, clock, rfl⟩
  · rw [h]
    dsimp only
    right
    unfold stat tick
    cases d₁.weather d₁.clock .stat path with
    | some f => exact ⟨_, id, _, _, rfl, h₁.clock _, .inl rfl, fun f hf => nomatch hf⟩
    | none =>
      have hsize : sizeOf { d₁ with clock := d₁.clock + 1 } ⟨path, .file id, true⟩ =
          (d.held path).length := congrArg List.length h₁.content
      dsimp only
      rw [hsize]
      obtain ⟨r, b, d₂, h, hb, h₂, hr⟩ := (h₁.clock (d₁.clock + 1)).fit_cases size
      exact ⟨r, id, b, d₂, h, h₂, hb, hr⟩

/-- A ledger that cannot be made has not touched the new data file. -/
theorem Placed.sameAt_unsaved {d₁ : Disk} {b : Bytes} {id : Nat} (hp : Placed d path b id d₁)
    (hl : d.Linked) (hdata : d.node? path = none) (hstate : d₁.node? (statePath path) = none)
    (h : Confined [temporaryFor (statePath path)] [temporaryFor (statePath path)] d₁ d') :
    SameAt (statePath path) d₁ d' ∧ SameAt path d₁ d' := by
  have hne : temporaryFor (statePath path) ≠ path := by
    rw [statePath, temporaryFor_append]
    exact append_ne_self path (by decide)
  refine ⟨h.sameAt (hp.linked hl) (fun hmem => ?_) fun id' hid' => ?_,
    h.sameAt (hp.linked hl) (fun hmem => ?_) fun id' hid' q hq hq' => ?_⟩
  · exact temporaryFor_ne (statePath path) (List.mem_singleton.1 hmem)
  · rw [hstate] at hid'
    cases hid'
  · exact hne.symm (List.mem_singleton.1 hmem)
  · -- The new file is none of those that have a name already.
    rw [List.mem_singleton.1 hq, hp.node, if_neg hne] at hq'
    rw [hp.node, if_pos rfl] at hid'
    obtain rfl := Node.file.inj (Option.some.inj hid')
    rcases hp.origin with horigin | ⟨-, rfl⟩
    · rw [hdata] at horigin
      cases horigin
    · exact Nat.lt_irrefl _ (hl _ _ hq')

/-- A data file that is opened in its size is as it was. -/
theorem Placed.sameAt_fitting {d₁ : Disk} {b : Bytes} {id size : Nat} (hp : Placed d path b id d₁)
    (hb : b = d.held path ∨ b = (d.held path).resize size)
    (hsize : (d.content? path).map List.length = some size) : SameAt path d d₁ := by
  have hnode : d₁.node? path = some (.file id) := (hp.node path).trans (if_pos rfl)
  obtain ⟨b₀, hheld, hlen⟩ := Option.map_eq_some_iff.1 hsize
  have hsame : b = b₀ := by
    unfold held at hb
    rw [hheld, Option.getD_some, Bytes.resize_of_length hlen, or_self] at hb
    exact hb
  refine ⟨?_, ?_⟩
  · rcases hp.origin with horigin | ⟨hnone, -⟩
    · rw [hnode, horigin]
    · unfold Disk.content? at hheld
      rw [hnone] at hheld
      cases hheld
  · rw [hheld, ← hsame]
    unfold Disk.content?
    rw [hnode, ← hp.content]

/-! ### Files that are only read -/

theorem openRead_clock (d : Disk) (p : Path) : ∃ r clock, d.openRead p = (r, { d with clock }) := by
  unfold openRead tick
  cases d.weather d.clock .access p with
  | some f => exact ⟨_, _, rfl⟩
  | none =>
    dsimp only
    split
    · exact ⟨_, _, rfl⟩
    · exact ⟨_, _, rfl⟩

theorem readAll_clock (d : Disk) (h : Handle) : ∃ r clock, d.readAll h = (r, { d with clock }) := by
  unfold readAll tick
  cases d.weather d.clock .read h.path with
  | some f => exact ⟨_, _, rfl⟩
  | none =>
    dsimp only
    split
    · exact ⟨_, _, rfl⟩
    · exact ⟨_, _, rfl⟩

theorem load_clock (d : Disk) (p : Path) : ∃ r clock, d.load p = (r, { d with clock }) := by
  unfold load
  obtain ⟨r, clock, h⟩ := d.openRead_clock p
  rw [h]
  cases r with
  | error e => exact ⟨_, clock, rfl⟩
  | ok x => exact readAll_clock { d with clock } x

end Disk

theorem Tree.load_clock (p : Path) (d : Disk) :
    ∃ r clock, Tree.load p d = (r, { d with clock }) := by
  unfold Tree.load
  obtain ⟨r, clock, h⟩ := d.load_clock p
  rw [h]
  cases r with
  | error e => exact ⟨_, clock, rfl⟩
  | ok b => exact ⟨_, clock, rfl⟩

/-- A ledger that cannot be opened was read, or could not be saved. -/
theorem Ledger.openOrCreate_error {d d' : Disk} {p : Path} {count : Nat} {e : Error}
    (hl : d.Linked) (h : Ledger.openOrCreate p count d = (.error e, d')) :
    d.has p = true ∧ (∃ clock, d' = { d with clock }) ∨
    d.has p = false ∧ d.Confined [temporaryFor p] [temporaryFor p] d' := by
  unfold openOrCreate at h
  cases hp : d.has p with
  | true =>
    obtain ⟨r, clock, hload⟩ := d.load_clock p
    rw [if_pos hp, hload] at h
    refine .inl ⟨rfl, clock, ?_⟩
    cases r with
    | error e' => exact (congrArg Prod.snd h).symm
    | ok b => exact (congrArg Prod.snd h).symm
  | false =>
    have hpersist : { empty count with path := some p }.persist d =
        d.save p { empty count with path := some p }.snapshot := rfl
    rw [if_neg (by rw [hp]; decide)] at h
    dsimp only at h hpersist
    rw [hpersist] at h
    rcases Disk.save_cases hl p { empty count with path := some p }.snapshot with
      ⟨context, text, d'', hsave, hconfined⟩ | ⟨id, d'', hsave, -⟩
    · rw [hsave] at h
      cases h
      exact .inr ⟨rfl, hconfined⟩
    · rw [hsave] at h
      cases h

/-! ### Where an opening can end -/

namespace Cache

variable {d d' : Disk} {path : Path} {t : Tree} {entry : Entry} {config : Config} {e : Error}

theorem checkPair_eq_ok_iff : checkPair path d = .ok () ↔ d.has path = d.has (statePath path) := by
  simp [checkPair]

theorem checkPair_error (h : checkPair path d = .error e) :
    ∃ text, e = .invalidConfiguration text := by
  unfold checkPair at h
  split at h
  · cases h
  · cases h
    exact ⟨_, rfl⟩

/-- The points at which an opening can end, with its result and the disk that it leaves. -/
inductive Course (entry : Entry) (path : Path) (config : Config) (d : Disk) :
    Except Error (Cache × Ledger) → Disk → Prop
  | settings {e : Error} (he : config.transfer.validate = .error e) :
      Course entry path config d (.error e) d
  | pair {e : Error} (he : checkPair path d = .error e) : Course entry path config d (.error e) d
  | tree {e : Error} {d' : Disk} (hpair : checkPair path d = .ok ())
      (he : loadTree entry path d = (.error e, d')) : Course entry path config d (.error e) d'
  | mismatch (t : Tree) {e : Error} {d' : Disk} (hpair : checkPair path d = .ok ())
      (ht : loadTree entry path d = (.ok t, d')) (he : checkTree entry path t = .error e) :
      Course entry path config d (.error e) d'
  | files (t : Tree) (d₁ : Disk) {e : Error} {d' : Disk} (hpair : checkPair path d = .ok ())
      (ht : loadTree entry path d = (.ok t, d₁)) (hok : checkTree entry path t = .ok ())
      (he : openFiles path entry.totalSize t.leafCount d₁ = (.error e, d')) :
      Course entry path config d (.error e) d'
  | opened (t : Tree) (d₁ : Disk) {f : LocalFile} {g : Ledger} {d' : Disk}
      (hconfig : config.transfer.validate = .ok ()) (hpair : checkPair path d = .ok ())
      (ht : loadTree entry path d = (.ok t, d₁)) (hok : checkTree entry path t = .ok ())
      (hfiles : openFiles path entry.totalSize t.leafCount d₁ = (.ok (f, g), d')) :
      Course entry path config d (.ok (⟨entry, path, t, f, config⟩, g)) d'

theorem openAt_course {r : Except Error (Cache × Ledger)}
    (h : openAt entry path config d = (r, d')) : Course entry path config d r d' := by
  unfold openAt at h
  split at h
  · rename_i e he
    cases h
    exact .settings he
  · rename_i e he _
    cases h
    exact .pair he
  · rename_i hconfig hpair
    split at h
    · rename_i e d₁ ht
      cases h
      exact .tree hpair ht
    · rename_i t d₁ ht
      split at h
      · rename_i e he
        cases h
        exact .mismatch t hpair ht he
      · rename_i hok
        split at h
        · rename_i e d₂ he
          cases h
          exact .files t d₁ hpair ht hok he
        · rename_i f g d₂ hfiles
          cases h
          exact .opened t d₁ hconfig hpair ht hok hfiles

theorem openAt_of_mismatch (hconfig : config.transfer.validate = .ok ())
    (hpair : checkPair path d = .ok ()) (ht : loadTree entry path d = (.ok t, d'))
    (he : checkTree entry path t = .error e) : openAt entry path config d = (.error e, d') := by
  unfold openAt
  rw [hconfig, hpair]
  dsimp only
  rw [ht]
  dsimp only
  rw [he]

/-- A tree comes out of its sidecar, or out of the manifest if there is no sidecar; then it
is saved. -/
theorem loadTree_cases (hl : d.Linked) (entry : Entry) (path : Path) :
    (d.has (treePath path) = true ∧ ∃ r clock, loadTree entry path d = (r, { d with clock })) ∨
    d.has (treePath path) = false ∧
      ((∃ e, treeOfManifest entry (treePath path) = .error e ∧
          loadTree entry path d = (.error e, d)) ∨
        ∃ t, treeOfManifest entry (treePath path) = .ok t ∧
          ((∃ context text d', loadTree entry path d = (.error (.io context text), d') ∧
              d.Confined [temporaryFor (treePath path)] [temporaryFor (treePath path)] d') ∨
            ∃ id d', loadTree entry path d = (.ok t, d') ∧
              d.Saved (treePath path) t.encode id d')) := by
  unfold loadTree
  cases hp : d.has (treePath path) with
  | true =>
    dsimp only
    rw [if_pos hp]
    exact .inl ⟨rfl, Tree.load_clock _ d⟩
  | false =>
    dsimp only
    rw [if_neg (by rw [hp]; decide)]
    refine .inr ⟨rfl, ?_⟩
    cases ht : treeOfManifest entry (treePath path) with
    | error e => exact .inl ⟨e, rfl, rfl⟩
    | ok t =>
      refine .inr ⟨t, rfl, ?_⟩
      dsimp only
      unfold Tree.save
      rcases Disk.save_cases hl (treePath path) t.encode with
        ⟨context, text, d', hsave, hconfined⟩ | ⟨id, d', hsave, hsaved⟩
      · rw [hsave]
        exact .inl ⟨context, text, d', rfl, hconfined⟩
      · rw [hsave]
        exact .inr ⟨id, d', rfl, hsaved⟩

/-! ### The data file and the ledger -/

open Disk (Confined Placed SameAt Separate)

/-- If the files cannot be opened, the data file was made, cut or filled up at most, and
the ledger was written to only if there was none. -/
theorem openFiles_error {size count : Nat} (hl : d.Linked)
    (h : openFiles path size count d = (.error e, d')) :
    (∃ clock, d' = { d with clock }) ∨
    ∃ id b d₁, Placed d path b id d₁ ∧ (b = d.held path ∨ b = (d.held path).resize size) ∧
      ((∃ clock locks, d' = { d₁ with clock, locks }) ∨ d₁.has (statePath path) = false ∧
        Confined [temporaryFor (statePath path)] [temporaryFor (statePath path)] d₁ d') := by
  unfold openFiles at h
  rcases Disk.openSized_cases hl path size with
    ⟨e', clock, hsized⟩ | ⟨r, id, b, d₁, hsized, hp, hb, hr⟩
  · rw [hsized] at h
    cases h
    exact .inl ⟨clock, rfl⟩
  · refine .inr ⟨id, b, ?_⟩
    rw [hsized] at h
    cases r with
    | error e' => exact ⟨d₁, hp, hb, .inl ⟨d₁.clock, d₁.locks, (congrArg Prod.snd h).symm⟩⟩
    | ok f =>
      obtain rfl := hr f rfl
      have hlinked : Disk.Linked { d₁ with locks := id :: d₁.locks } := hp.linked hl
      dsimp only [LocalFile.lock, Disk.lock] at h
      by_cases hlocked : id ∈ d₁.locks
      · rw [if_pos hlocked] at h
        exact ⟨d₁, hp, hb, .inl ⟨d₁.clock, d₁.locks, (congrArg Prod.snd h).symm⟩⟩
      · rw [if_neg hlocked] at h
        rcases hledger : Ledger.openOrCreate (statePath path) count
          { d₁ with locks := id :: d₁.locks } with ⟨e' | g, d₂⟩
        · dsimp only at h
          rw [hledger] at h
          obtain rfl : { d₂ with locks := d₂.locks.erase id } = d' := congrArg Prod.snd h
          refine ⟨d₁, hp, hb, ?_⟩
          rcases Ledger.openOrCreate_error hlinked hledger with
            ⟨-, clock, rfl⟩ | ⟨hnone, hconfined⟩
          · exact .inl ⟨clock, _, rfl⟩
          · exact .inr ⟨hnone, hconfined.of_locks.locks _ _⟩
        · dsimp only at h
          rw [hledger] at h
          cases h

/-- The tree is loaded or saved beside the other files. -/
theorem loadTree_keeps {r : Except Error Tree} (hl : d.Linked)
    (h : loadTree entry path d = (r, d')) : Confined
      [treePath path, temporaryFor (treePath path)] [temporaryFor (treePath path)] d d' ∧
      ∀ t, r = .ok t → d'.Linked := by
  rcases loadTree_cases hl entry path with ⟨-, r', clock, htree⟩ | ⟨-, ⟨e, -, htree⟩ | ⟨t', -,
    ⟨context, text, d₁, htree, hconfined⟩ | ⟨id, d₁, htree, hsaved⟩⟩⟩
  · cases h.symm.trans htree
    exact ⟨d.confined_of_clock clock d.locks, fun _ _ => hl⟩
  · cases h.symm.trans htree
    exact ⟨d.confined_of_clock d.clock d.locks, (nomatch ·, ·)⟩
  · cases h.symm.trans htree
    exact ⟨hconfined.mono (fun q hq => List.mem_cons_of_mem _ hq) fun q hq => hq, (nomatch ·, ·)⟩
  · cases h.symm.trans htree
    exact ⟨hsaved.confined, fun _ _ => hsaved.linked hl⟩

/-- What happens to the two files when they cannot be opened: the ledger is as it was, and
so is the data file, if it was there in its size. -/
theorem openFiles_keeps {size count : Nat} (hl : d.Linked)
    (htwo : ∀ id, d.node? (statePath path) = some (.file id) → d.node? path ≠ some (.file id))
    (hpair : d.has path = d.has (statePath path))
    (h : openFiles path size count d = (.error e, d')) :
    SameAt (statePath path) d d' ∧ (SameAt path d d' ∨
      (d.content? path).map List.length ≠ some size ∧
        ∃ b, d'.content? path = some b ∧ (b = d.held path ∨ b = (d.held path).resize size)) := by
  rcases openFiles_error hl h with ⟨clock, rfl⟩ | ⟨id, b, d₁, hp, hb, hrest⟩
  · exact ⟨⟨rfl, rfl⟩, .inl ⟨rfl, rfl⟩⟩
  · have hstate : SameAt (statePath path) d d₁ := by
      refine hp.confined.sameAt hl (fun hmem => ?_) fun id' hid' q hq => ?_
      · exact statePath_ne path (List.mem_singleton.1 hmem)
      · rw [List.mem_singleton.1 hq]
        exact htwo id' hid'
    obtain ⟨hstate', hdata'⟩ : SameAt (statePath path) d₁ d' ∧ SameAt path d₁ d' := by
      rcases hrest with ⟨clock, locks, rfl⟩ | ⟨hnone, hconfined⟩
      · exact ⟨⟨rfl, rfl⟩, rfl, rfl⟩
      · -- Where there is no ledger, there was no data file.
        have hno : d₁.node? (statePath path) = none := Disk.node?_of_not_has hnone
        have hdata : d.node? path = none := by
          refine Disk.node?_of_not_has (hpair.trans ?_)
          unfold Disk.has
          rw [← hstate.node, hno]
          rfl
        exact hp.sameAt_unsaved hl hdata hno hconfined
    refine ⟨hstate.trans hstate', ?_⟩
    by_cases hsize : (d.content? path).map List.length = some size
    · exact .inl ((hp.sameAt_fitting hb hsize).trans hdata')
    · refine .inr ⟨hsize, b, ?_, hb⟩
      rw [hdata'.content]
      unfold Disk.content?
      rw [hp.node, if_pos rfl, ← hp.content]

/-- The data file was made, cut or filled up, although the cache could not be opened: the
settings, the names and the tree were in order, but not the files. -/
structure Unfinished (entry : Entry) (path : Path) (d : Disk) (e : Error) (d' : Disk) :
    Prop where
  reached : ∃ t d₁, loadTree entry path d = (.ok t, d₁) ∧ checkTree entry path t = .ok () ∧
    openFiles path entry.totalSize t.leafCount d₁ = (.error e, d')
  unfit : (d.content? path).map List.length ≠ some entry.totalSize
  content : ∃ b, d'.content? path = some b ∧
    (b = d.held path ∨ b = (d.held path).resize entry.totalSize)

/-- An opening that fails leaves the ledger as it was, and the data file too, unless that
was missing or had another size: then it may be there, in its size, all the same. -/
theorem opening_refused (hd : d.Separate path) (h : openAt entry path config d = (.error e, d')) :
    SameAt (statePath path) d d' ∧ (SameAt path d d' ∨ Unfinished entry path d e d') := by
  cases openAt_course h with
  | settings he => exact ⟨.refl _ d, .inl (.refl _ d)⟩
  | pair he => exact ⟨.refl _ d, .inl (.refl _ d)⟩
  | tree hpair he =>
    obtain ⟨hdata, hstate⟩ := hd.sameAt (loadTree_keeps hd.linked he).1
    exact ⟨hstate, .inl hdata⟩
  | mismatch t hpair ht he =>
    obtain ⟨hdata, hstate⟩ := hd.sameAt (loadTree_keeps hd.linked ht).1
    exact ⟨hstate, .inl hdata⟩
  | files t d₁ hpair ht hok he =>
    obtain ⟨hkept, hlinked⟩ := loadTree_keeps hd.linked ht
    obtain ⟨hdata, hstate⟩ := hd.sameAt hkept
    -- The tree has left the two names as they were.
    have htwo : ∀ id, d₁.node? (statePath path) = some (.file id) →
        d₁.node? path ≠ some (.file id) := by
      rw [hstate.node, hdata.node]
      exact hd.two
    have hboth : d₁.has path = d₁.has (statePath path) := by
      rw [hdata.has, hstate.has]
      exact checkPair_eq_ok_iff.1 hpair
    have hheld : d₁.held path = d.held path := congrArg (Option.getD · []) hdata.content
    obtain ⟨hstate', hdata'⟩ := openFiles_keeps (hlinked t rfl) htwo hboth he
    refine ⟨hstate.trans hstate', hdata'.imp hdata.trans fun ⟨hunfit, hcontent⟩ => ?_⟩
    rw [hdata.content] at hunfit
    rw [hheld] at hcontent
    exact ⟨⟨t, d₁, ht, hok, he⟩, hunfit, hcontent⟩

/-- Twice the letters beside a ledger that is none. -/
def outgrown : Disk where
  names := [("d", .file 0), ("d.mrkl", .file 1)]
  files := [Session.letters ++ Session.letters, Session.letters]

theorem opening_refused_outgrown : outgrown.Separate "d" ∧
    ∃ e d', openAt lettersEntry "d" {} outgrown = (.error e, d') ∧
      SameAt (statePath "d") outgrown d' ∧ d'.content? "d" = some Session.letters := by
  have hdata : outgrown.node? "d" = some (.file 0) := by decide +kernel
  have hstate : outgrown.node? (statePath "d") = some (.file 1) := by decide +kernel
  have htemporary : outgrown.node? (temporaryFor (treePath "d")) = none := by decide +kernel
  have hseparate : outgrown.Separate "d" := {
    linked := Disk.linked_of_names (by simp [outgrown])
    two := by simp [hdata, hstate]
    data := by simp [htemporary]
    state := by simp [htemporary] }
  obtain ⟨e, hopen⟩ := exists_error (x := openAt lettersEntry "d" {} outgrown)
    (by decide +kernel)
  have hcut : (openAt lettersEntry "d" {} outgrown).2.content? "d" = some Session.letters := by
    decide +kernel
  exact ⟨hseparate, e, _, hopen, (opening_refused hseparate hopen).1, hcut⟩

/-- A directory stands where the ledger would be written first. The opening fails, and
leaves a data file without a ledger. -/
theorem data_without_ledger : let d : Disk := { names := [("d.mrkl.tmp", .directory)] }
    d.has "d" = false ∧ d.has (statePath "d") = false ∧
      ∃ e d', openAt lettersEntry "d" {} d = (.error e, d') ∧
        d'.has "d" = true ∧ d'.has (statePath "d") = false := by
  intro d
  obtain ⟨e, hopen⟩ := exists_error (x := openAt lettersEntry "d" {} d) (by decide +kernel)
  have hdata : (openAt lettersEntry "d" {} d).2.has "d" = true := by decide +kernel
  have hstate : (openAt lettersEntry "d" {} d).2.has (statePath "d") = false := by decide +kernel
  exact ⟨by decide +kernel, by decide +kernel, e, _, hopen, hdata, hstate⟩

end Cache
end VerifiedCopy
