/-
# The files of a cache

A cache at a path has three files: the data, the tree and the ledger. A disk in fair
weather is vacant for the path if none of them is there (`Disk.Vacant`), and stocked if
the data file and the tree are, each a file of its own (`Disk.Stocked`). A vacant disk
is stocked by the first opening, which starts a new ledger (`openAt_vacant`); a later
one finds the data as they were and takes the ledger from its sidecar
(`openAt_stocked`).

While the cache is open, work on the local file and savings of the ledger leave the
disk stocked (`Step.housed`, `Run.housed`), and the ledger can be saved at the end.

Key definitions: `Disk.Vacant`, `Disk.Stocked`, `Site.Housed`.
Key theorems: `Stocked.save`, `openAt_vacant`, `openAt_stocked`, `Run.housed`.
-/
import VerifiedCopy.Cache
import VerifiedCopy.Proofs.Closing
import VerifiedCopy.Proofs.Tree.Codec

namespace VerifiedCopy

open Sidecar (treePath statePath)

/-! ### The names -/

section Names

variable {path q : Path}

theorem append_ne (path : Path) {s s' : String} (h : s ≠ s') : path ++ s ≠ path ++ s' :=
  fun e => h ((String.append_right_inj path).1 e)

theorem append_ne_self (path : Path) {s : String} (h : s ≠ "") : path ++ s ≠ path := by
  have hne := append_ne path h
  rw [String.append_empty] at hne
  exact hne

theorem temporaryFor_append (path : Path) (s : String) :
    temporaryFor (path ++ s) = path ++ (s ++ ".tmp") :=
  String.append_assoc

theorem statePath_ne (path : Path) : statePath path ≠ path := append_ne_self path (by decide)

theorem treePath_ne_statePath (path : Path) : treePath path ≠ statePath path :=
  append_ne path (by decide)

/-- No sidecar or temporary file has the name of the directory. -/
theorem ne_append_of_parent? (h : Disk.parent? path = some q) (s : String) : q ≠ path ++ s := by
  intro e
  have hlt := Disk.length_lt_of_parent? h
  rw [e, String.length_append] at hlt
  omega

/-- The temporary name of a sidecar is none of the other names. -/
theorem temporaryFor_ne_of_suffix (path : Path) {s : String} (s' : String) (h : s ++ ".tmp" ≠ s') :
    temporaryFor (path ++ s) ≠ path ++ s' := by
  rw [temporaryFor_append]
  exact append_ne path h

end Names

namespace Disk

variable {d d' : Disk} {path : Path} {t : Tree} {n : Nat} {b : Bytes}

/-! ### Fair weather -/

theorem Fair.tick (hf : d.Fair) (op : FileOp) (p : Path) :
    d.tick op p = (none, { d with clock := d.clock + 1 }) := by
  unfold Disk.tick
  rw [hf]

theorem Fair.of_weather (hf : d.Fair) (h : d'.weather = d.weather) : d'.Fair := by
  intro k op p
  rw [h]
  exact hf k op p

/-! ### Vacant and stocked disks -/

/-- None of the files of the cache at `path` is there, and nothing stands in the way of
making them. Their temporary files may be there, as files of their own. -/
structure Vacant (d : Disk) (path : Path) : Prop where
  fair : d.Fair
  room : d.hasRoomFor path = true
  data : d.node? path = none
  tree : d.node? (treePath path) = none
  state : d.node? (statePath path) = none
  treeTemporary : d.node? (temporaryFor (treePath path)) ≠ some .directory
  stateTemporary : d.node? (temporaryFor (statePath path)) ≠ some .directory
  apart : ∀ id, d.node? (temporaryFor (treePath path)) = some (.file id) →
    d.node? (temporaryFor (statePath path)) ≠ some (.file id)
  known : ∀ p id, d.node? p = some (.file id) → id < d.files.length
  locks : ∀ id ∈ d.locks, id < d.files.length

/-- The data file `n` of the cache at `path` is there and has its size, the tree is
beside it, and the ledger can be saved at any time. -/
structure Stocked (d : Disk) (path : Path) (t : Tree) (n : Nat) : Prop where
  fair : d.Fair
  backed : d.Backed (statePath path) n
  data : d.node? path = some (.file n)
  size : (d.content n).length = t.layout.totalSize
  tree : ∃ a, d.node? (treePath path) = some (.file a) ∧ d.content a = t.encode ∧ a ≠ n ∧
    a < d.files.length ∧ d.node? (temporaryFor (statePath path)) ≠ some (.file a)

/-- Neither the clock nor the locks make a difference. -/
theorem Stocked.congr (h : d.Stocked path t n) (clock : Nat) (locks : List Nat) :
    Stocked { d with clock, locks } path t n where
  fair := h.fair
  backed := {
    clear := ⟨h.backed.clear.weather, h.backed.clear.room, h.backed.clear.target,
      h.backed.clear.temporary, h.backed.clear.known⟩
    apart := h.backed.apart
    shielded := h.backed.shielded
    known := h.backed.known
    sidecar := h.backed.sidecar }
  data := h.data
  size := h.size
  tree := h.tree

/-- Work on the data file that keeps its size leaves the disk stocked. -/
theorem Stocked.of_touches {file : LocalFile} (h : d.Stocked path t n)
    (hn : file.handle.node = .file n) (ht : file.Touches d d')
    (hsize : (d'.content n).length = (d.content n).length) : d'.Stocked path t n := by
  have hchanges := ht.changes n hn
  have hnode : ∀ q, d'.node? q = d.node? q := fun q => by unfold node?; rw [ht.names]
  obtain ⟨a, hnode_a, hcontent, hne, ha, hshield⟩ := h.tree
  refine ⟨h.fair.of_weather hchanges.weather, (h.backed.of_touches hn ht).1, ?_, ?_, a, ?_, ?_,
    hne, Nat.lt_of_lt_of_le ha hchanges.grows, ?_⟩
  · rw [hnode, h.data]
  · rw [hsize, h.size]
  · rw [hnode, hnode_a]
  · rw [hchanges.others a ha hne, hcontent]
  · rw [hnode]
    exact hshield

/-- The ledger can be saved, which leaves the data and the tree alone. -/
theorem Stocked.save (h : d.Stocked path t n) (hb : b.length < maxOffset) :
    (d.save (statePath path) b).1 = .ok () ∧ (d.save (statePath path) b).2.Stocked path t n ∧
      (d.save (statePath path) b).2.content? (statePath path) = some b ∧
      (d.save (statePath path) b).2.content n = d.content n ∧
      (d.save (statePath path) b).2.locks = d.locks := by
  obtain ⟨-, hbacked, -⟩ := h.backed.save hb
  obtain ⟨hok, id, hs⟩ := save_of_clear h.backed.clear hb
  obtain ⟨a, hnode, hcontent, hne, ha, hshield⟩ := h.tree
  -- The new file is neither the data file nor the tree.
  have hother : ∀ id' < d.files.length, d.node? (temporaryFor (statePath path)) ≠ some (.file id') →
      (d.save (statePath path) b).2.content id' = d.content id' :=
    fun id' hid' hnot => hs.changes.others id' hid' (hs.ne hid' hnot)
  have hdata := hother n h.backed.known h.backed.shielded
  refine ⟨hok, ⟨h.fair.of_weather hs.changes.weather, hbacked, ?_, by rw [hdata, h.size], a, ?_,
    ?_, hne, Nat.lt_of_lt_of_le ha hs.changes.grows, hs.temporary_ne ha hshield⟩, hs.content?,
    hdata, hs.changes.locks⟩
  · rw [hs.node, if_neg (statePath_ne path).symm, h.data]
    exact (show temporaryFor (statePath path) ≠ path by
      rw [statePath, temporaryFor_append]
      exact append_ne_self path (by decide)).symm
  · rw [hs.node, if_neg (treePath_ne_statePath path), hnode]
    exact (temporaryFor_ne_of_suffix path ".mref" (by decide)).symm
  · rw [hother a ha hshield, hcontent]

/-! ### Making the data file -/

theorem Placed.fair {q : Path} {id : Nat} (h : Placed d q b id d') (hf : d.Fair) : d'.Fair :=
  hf.of_weather h.changes.weather

theorem Placed.reserve {q : Path} {id : Nat} (h : Placed d q b id d') (hf : d.Fair) (q' : Path)
    (size : Nat) : ∃ b', Placed d q b' id (d'.reserve ⟨q', .file id, true⟩ size).2 := by
  unfold Disk.reserve
  rw [(h.fair hf).tick]
  dsimp only
  split
  · exact ⟨b, h.clock _⟩
  · exact ⟨_, (h.clock _).setContent _⟩

theorem Placed.resize {q : Path} {id : Nat} (h : Placed d q b id d') (hf : d.Fair) (q' : Path)
    {size : Nat} (hsize : size < maxOffset) : ∃ d'' b',
      d'.resize ⟨q', .file id, true⟩ size = (.ok (), d'') ∧ b'.length = size ∧
        Placed d q b' id d'' := by
  unfold Disk.resize
  rw [(h.fair hf).tick]
  dsimp only
  rw [if_neg (Nat.not_le.2 hsize)]
  exact ⟨_, _, rfl, Bytes.length_resize _ size, (h.clock _).setContent _⟩

/-- A new data file gets its size. -/
theorem openSized_new (hf : d.Fair) (hnode : d.node? path = none)
    (hroom : d.hasRoomFor path = true) {size : Nat} (hsize : size < maxOffset) : ∃ d' b,
      LocalFile.openSized path size d =
        (.ok ⟨⟨path, .file d.files.length, true⟩, size, false⟩, d') ∧
      b.length = size ∧ Placed d path b d.files.length d' := by
  have hopen : d.openWrite path = (.ok ⟨path, .file d.files.length, true⟩,
      ({ d with clock := d.clock + 1 }.create path).2) := by
    unfold openWrite
    rw [hf.tick]
    dsimp only
    rw [show ({ d with clock := d.clock + 1 } : Disk).node? path = none from hnode]
    dsimp only
    rw [if_pos (show ({ d with clock := d.clock + 1 } : Disk).hasRoomFor path = true from hroom)]
    rfl
  have hmade : Placed d path [] d.files.length ({ d with clock := d.clock + 1 }.create path).2 :=
    (placed_create (d := { d with clock := d.clock + 1 }) hnode).of_clock
  generalize ({ d with clock := d.clock + 1 }.create path).2 = d₁ at hopen hmade
  have hstat : d₁.stat ⟨path, .file d.files.length, true⟩ =
      (.ok 0, { d₁ with clock := d₁.clock + 1 }) := by
    unfold stat
    rw [(hmade.fair hf).tick]
    exact congrArg (fun b : Bytes => (Except.ok b.length, _)) hmade.content
  unfold LocalFile.openSized
  rw [hopen]
  dsimp only
  rw [hstat]
  dsimp only
  unfold LocalFile.fit
  by_cases hzero : 0 = size
  · rw [if_pos hzero]
    exact ⟨_, [], rfl, hzero, hmade.clock _⟩
  · rw [if_neg hzero, if_pos (Nat.pos_of_ne_zero (Ne.symm hzero))]
    obtain ⟨b₁, hreserved⟩ := (hmade.clock (d₁.clock + 1)).reserve hf path size
    obtain ⟨d₂, b₂, hresize, hlen, hplaced⟩ := hreserved.resize hf path hsize
    dsimp only
    rw [hresize]
    exact ⟨d₂, b₂, rfl, hlen, hplaced⟩

/-- A data file that is there and has its size is opened as it is. -/
theorem openSized_stocked (h : d.Stocked path t n) : ∃ clock,
    LocalFile.openSized path t.layout.totalSize d =
      (.ok ⟨⟨path, .file n, true⟩, t.layout.totalSize, false⟩, { d with clock }) := by
  have hopen : d.openWrite path = (.ok ⟨path, .file n, true⟩, { d with clock := d.clock + 1 }) := by
    unfold openWrite
    rw [h.fair.tick]
    dsimp only
    rw [show ({ d with clock := d.clock + 1 } : Disk).node? path = _ from h.data]
  have hstat : ({ d with clock := d.clock + 1 } : Disk).stat ⟨path, .file n, true⟩ =
      (.ok t.layout.totalSize, { d with clock := d.clock + 1 + 1 }) := by
    unfold stat
    rw [(h.congr (d.clock + 1) d.locks).fair.tick]
    exact congrArg (fun len => (Except.ok len, _)) h.size
  unfold LocalFile.openSized
  rw [hopen]
  dsimp only
  rw [hstat]
  dsimp only
  unfold LocalFile.fit
  rw [if_pos rfl]
  exact ⟨_, rfl⟩

theorem has_of_content? {p : Path} (h : d.content? p = some b) : d.has p = true := by
  obtain ⟨id, hid, -⟩ := exists_node_of_content? h
  unfold has
  rw [hid]
  rfl

theorem load_fair {p : Path} (hf : d.Fair) (h : d.content? p = some b) :
    ∃ clock, d.load p = (.ok b, { d with clock }) := by
  obtain ⟨id, hopen, hb⟩ := openRead_of_content? h fun n op => hf n op p
  have hfair : ({ d with clock := d.clock + 1 } : Disk).Fair := hf
  refine ⟨d.clock + 1 + 1, ?_⟩
  unfold load
  rw [hopen]
  dsimp only
  unfold readAll
  rw [hfair.tick, ← hb]
  rfl

/-! ### The first opening -/

theorem Vacant.clear (h : d.Vacant path) : d.Clear (treePath path) where
  weather t op := h.fair t op _
  room := (d.hasRoomFor_append path (by decide)).trans h.room
  target := by rw [h.tree]; exact (nomatch ·)
  temporary := h.treeTemporary
  known := h.known _

theorem length_encode_lt (t : Tree) : t.encode.length < maxOffset := by
  have hcount : t.leafCount < UInt32.size := t.layout.chunkCount_lt
  have hsize : UInt32.size = 4294967296 := rfl
  unfold Tree.encode Sidecar.withChecksum
  rw [List.length_append, Checksum.length_trailer, t.length_body 0]
  have hupper : t.upperCount 0 = 0 := rfl
  unfold maxOffset Tree.headerLength
  omega

/-- Saving the tree gives its name a meaning and leaves the names beside the data alone that are
not its own and its temporary one. -/
theorem Saved.node_append {a : Nat} (hs : Saved d (treePath path) b a d') {s : String}
    (hne : s ≠ ".mref") (hne' : s ≠ ".mref.tmp") : d'.node? (path ++ s) = d.node? (path ++ s) := by
  rw [hs.node, if_neg (show path ++ s ≠ treePath path from append_ne path hne)]
  rw [treePath, temporaryFor_append]
  exact append_ne path hne'

theorem Saved.hasRoomFor {a : Nat} (hs : Saved d (treePath path) b a d') :
    d'.hasRoomFor path = d.hasRoomFor path := by
  refine hasRoomFor_congr fun q hq => ?_
  rw [hs.node, if_neg (show q ≠ treePath path from ne_append_of_parent? hq _)]
  rw [treePath, temporaryFor_append]
  exact ne_append_of_parent? hq _

/-- A new data file is in the way of no other name. -/
theorem Placed.node_append (hp : Placed d path b n d') {s : String} (hne : s ≠ "") :
    d'.node? (path ++ s) = d.node? (path ++ s) := by
  rw [hp.node, if_neg (append_ne_self path hne)]

theorem Placed.hasRoomFor (hp : Placed d path b n d') :
    d'.hasRoomFor path = d.hasRoomFor path := by
  refine hasRoomFor_congr fun q hq => (hp.node q).trans (if_neg fun e => ?_)
  have hlt := length_lt_of_parent? hq
  rw [e] at hlt
  exact Nat.lt_irrefl _ hlt

section First

variable {d₁ d₂ : Disk} {tree : Bytes} {a : Nat}

/-- With the tree and the data file made, the names for the ledger are as before. -/
theorem Vacant.node_state (h : d.Vacant path) (hs : Saved d (treePath path) tree a d₁)
    (hp : Placed d₁ path b n d₂) : d₂.node? (statePath path) = none ∧
      d₂.node? (temporaryFor (statePath path)) = d.node? (temporaryFor (statePath path)) := by
  rw [statePath, temporaryFor_append, hp.node_append (by decide), hp.node_append (by decide),
    hs.node_append (by decide) (by decide), hs.node_append (by decide) (by decide)]
  exact ⟨h.state, rfl⟩

/-- A ledger can be kept beside the new data file. -/
theorem Vacant.backed (h : d.Vacant path) (hs : Saved d (treePath path) tree a d₁)
    (hp : Placed d₁ path b d₁.files.length d₂) :
    d₂.Backed (statePath path) d₁.files.length := by
  obtain ⟨hstate, htemporary⟩ := h.node_state hs hp
  have hfair : d₂.Fair :=
    h.fair.of_weather (hp.changes.weather.trans hs.changes.weather)
  refine ⟨⟨fun k op => hfair k op _, ?_, ?_, ?_, fun id hid => ?_⟩, ?_, fun hid => ?_, hp.known,
    fun id hid => ?_⟩
  · rw [statePath, hasRoomFor_append _ path (by decide), hp.hasRoomFor, hs.hasRoomFor]
    exact h.room
  · rw [hstate]
    exact (nomatch ·)
  · rw [htemporary]
    exact h.stateTemporary
  · rw [htemporary] at hid
    exact Nat.lt_of_lt_of_le (h.known _ id hid)
      (Nat.le_trans hs.changes.grows hp.changes.grows)
  · rw [hstate]
    exact (nomatch ·)
  · rw [htemporary] at hid
    exact Nat.lt_irrefl _ (Nat.lt_of_lt_of_le (h.known _ _ hid) hs.changes.grows)
  · rw [hstate] at hid
    cases hid

/-- The disk with the tree and the data file is stocked. -/
theorem Vacant.stocked (h : d.Vacant path) (hs : Saved d (treePath path) t.encode a d₁)
    (hp : Placed d₁ path b d₁.files.length d₂) (hlen : b.length = t.layout.totalSize) :
    d₂.Stocked path t d₁.files.length := by
  obtain ⟨-, htemporary⟩ := h.node_state hs hp
  have hne : a ≠ d₁.files.length := Nat.ne_of_lt hs.known
  refine ⟨?_, h.backed hs hp, ?_, ?_, a, ?_, ?_, hne, ?_, ?_⟩
  · exact h.fair.of_weather (hp.changes.weather.trans hs.changes.weather)
  · rw [hp.node, if_pos rfl]
  · rw [hp.content, hlen]
  · rw [treePath, hp.node_append (by decide), ← treePath, hs.node _ (temporaryFor_ne _),
      if_pos rfl]
  · rw [hp.changes.others a hs.known hne, hs.content]
  · exact Nat.lt_of_lt_of_le hs.known hp.changes.grows
  · rw [htemporary]
    rcases hs.origin with htree | ⟨-, rfl⟩
    · exact h.apart a htree
    · exact fun hid => Nat.lt_irrefl _ (h.known _ _ hid)

end First

/-- A vacant disk gets the tree, and then a data file of the right size. -/
theorem Vacant.stock (h : d.Vacant path) (hsize : t.layout.totalSize < maxOffset) :
    ∃ d₁ d₂ n, t.save (treePath path) d = (.ok (), d₁) ∧
      LocalFile.openSized path t.layout.totalSize d₁ =
        (.ok ⟨⟨path, .file n, true⟩, t.layout.totalSize, false⟩, d₂) ∧
      d₂.Stocked path t n ∧ d₂.node? (statePath path) = none ∧ d₂.locks = d.locks ∧
      n ∉ d.locks := by
  obtain ⟨hok, a, hs⟩ := save_of_clear h.clear (length_encode_lt t)
  rcases hsave : d.save (treePath path) t.encode with ⟨r, d₁⟩
  rw [hsave] at hok hs
  obtain rfl : r = .ok () := hok
  dsimp only at hs
  have hnode : d₁.node? path = none := by
    have hsame := hs.node_append (s := "") (by decide) (by decide)
    rw [String.append_empty] at hsame
    rw [hsame, h.data]
  have hroom : d₁.hasRoomFor path = true := hs.hasRoomFor.trans h.room
  obtain ⟨d₂, b, hopen, hlen, hp⟩ :=
    openSized_new (h.fair.of_weather hs.changes.weather) hnode hroom hsize
  obtain ⟨hstate, -⟩ := h.node_state hs hp
  refine ⟨d₁, d₂, d₁.files.length, hsave, hopen, h.stocked hs hp hlen, hstate,
    hp.changes.locks.trans hs.changes.locks, fun hn => ?_⟩
  exact Nat.lt_irrefl _ (Nat.lt_of_lt_of_le (h.locks _ hn) hs.changes.grows)

/-! ### The ledger of a stocked disk -/

/-- A new ledger is started where there was none. -/
theorem Stocked.startLedger (h : d.Stocked path t n) (hnone : d.node? (statePath path) = none) :
    ∃ d', Ledger.openOrCreate (statePath path) t.leafCount d =
        (.ok { Ledger.empty t.leafCount with path := some (statePath path) }, d') ∧
      d'.Stocked path t n ∧ d'.content n = d.content n ∧ d'.locks = d.locks := by
  have hcount : (Ledger.empty t.leafCount).chunkCount < UInt32.size := t.layout.chunkCount_lt
  obtain ⟨hok, hstocked, -, hdata, hlocks⟩ := h.save (Ledger.length_snapshot_lt hcount)
  rcases hsave : d.save (statePath path) (Ledger.empty t.leafCount).snapshot with ⟨r, d'⟩
  rw [hsave] at hok hstocked hdata hlocks
  obtain rfl : r = .ok () := hok
  have hpersist : { Ledger.empty t.leafCount with path := some (statePath path) }.persist d =
      (.ok (), d') := hsave
  refine ⟨d', ?_, hstocked, hdata, hlocks⟩
  unfold Ledger.openOrCreate has
  rw [hnone, if_neg (by decide)]
  dsimp only at hpersist ⊢
  rw [hpersist]

/-- The ledger is what was saved last. -/
theorem Stocked.takeLedger (h : d.Stocked path t n) {g : Ledger}
    (hcount : g.chunkCount = t.leafCount) (hkept : d.content? (statePath path) = some g.snapshot) :
    ∃ clock, Ledger.openOrCreate (statePath path) t.leafCount d =
      (.ok { g.landed with path := some (statePath path) }, { d with clock }) := by
  have hsmall : g.chunkCount < UInt32.size := by
    rw [hcount]
    exact t.layout.chunkCount_lt
  obtain ⟨clock, hload⟩ := load_fair h.fair hkept
  refine ⟨clock, ?_⟩
  have hside : Ledger.ofSidecar (statePath path) t.leafCount g.snapshot =
      .ok { g.landed with path := some (statePath path) } :=
    bind_eq_ok_iff.2 ⟨g.landed, Ledger.restore_snapshot hsmall,
      refuse_eq_ok_iff.2 ⟨fun hne => hne hcount, rfl⟩⟩
  unfold Ledger.openOrCreate
  rw [if_pos (has_of_content? hkept), hload]
  dsimp only
  rw [hside]

end Disk

namespace Cache

open Disk (Vacant Stocked)

variable {d : Disk} {path : Path} {t : Tree} {n : Nat} {entry : Entry} {config : Config}

/-- The data file `n`, open and locked. -/
def dataFile (path : Path) (t : Tree) (n : Nat) : LocalFile :=
  ⟨⟨path, .file n, true⟩, t.layout.totalSize, true⟩

/-- The cache at `path` once the data file `n` is open. -/
def atFile (entry : Entry) (path : Path) (t : Tree) (config : Config) (n : Nat) : Cache :=
  ⟨entry, path, t, dataFile path t n, config⟩

theorem openFiles_eq {d₁ d₂ : Disk} {g : Ledger} {size count : Nat} (hn : n ∉ d₁.locks)
    (hsized : LocalFile.openSized path size d = (.ok ⟨⟨path, .file n, true⟩, size, false⟩, d₁))
    (hledger : Ledger.openOrCreate (statePath path) count { d₁ with locks := n :: d₁.locks } =
      (.ok g, d₂)) :
    openFiles path size count d = (.ok (⟨⟨path, .file n, true⟩, size, true⟩, g), d₂) := by
  unfold openFiles
  rw [hsized]
  dsimp only [LocalFile.lock, Disk.lock]
  rw [if_neg hn]
  dsimp only
  rw [hledger]

/-- The size of the entry is that of its tree. -/
theorem totalSize_eq_of_check (h : entry.check t = .ok ()) :
    entry.totalSize = t.layout.totalSize := by
  unfold Entry.check at h
  split at h
  · assumption
  · cases h

theorem checkTree_of_check (h : entry.check t = .ok ()) : checkTree entry path t = .ok () := by
  have hsize := totalSize_eq_of_check h
  unfold Entry.check at h
  rw [if_pos hsize] at h
  unfold checkTree
  rw [if_pos hsize, h]

/-- Opening a cache comes down to its tree and its files. -/
theorem openAt_eq {d₁ d₂ : Disk} {g : Ledger} (h : entry.check t = .ok ())
    (hconfig : config.transfer.validate = .ok ())
    (hpair : d.has path = d.has (statePath path)) (htree : loadTree entry path d = (.ok t, d₁))
    (hfiles : openFiles path t.layout.totalSize t.leafCount d₁ =
      (.ok (⟨⟨path, .file n, true⟩, t.layout.totalSize, true⟩, g), d₂)) :
    openAt entry path config d = (.ok (atFile entry path t config n, g), d₂) := by
  have hcheck : checkPair path d = .ok () := if_pos hpair
  unfold openAt
  rw [hconfig, hcheck]
  dsimp only
  rw [htree]
  dsimp only
  rw [checkTree_of_check h]
  dsimp only
  rw [totalSize_eq_of_check h, hfiles]
  rfl

/-- An entry that a cache can be opened for: its manifest is that of the tree, which
agrees with the entry and has a size that a file can have. -/
structure Describes (entry : Entry) (t : Tree) : Prop where
  manifest : entry.manifestTree = some (.ok t)
  check : entry.check t = .ok ()
  size : t.layout.totalSize < Disk.maxOffset

/-- The first opening makes the files, and starts a ledger without verdicts. -/
theorem openAt_vacant (hd : d.Vacant path) (h : Describes entry t)
    (hconfig : config.transfer.validate = .ok ()) :
    ∃ n d', openAt entry path config d = (.ok (atFile entry path t config n,
        { Ledger.empty t.leafCount with path := some (statePath path) }), d') ∧
      d'.Stocked path t n ∧ d'.locks = n :: d.locks ∧ n ∉ d.locks := by
  obtain ⟨d₁, d₂, n, hsave, hsized, hstocked, hnone, hlocks, hn⟩ := hd.stock h.size
  obtain ⟨d', hledger, hstocked', -, hlocks'⟩ :=
    (hstocked.congr d₂.clock (n :: d₂.locks)).startLedger hnone
  have htree : loadTree entry path d = (.ok t, d₁) := by
    unfold loadTree Disk.has treeOfManifest
    dsimp only
    rw [hd.tree, h.manifest, if_neg (by decide)]
    dsimp only
    rw [hsave]
  have hpair : d.has path = d.has (statePath path) := by
    unfold Disk.has
    rw [hd.data, hd.state]
  have hfiles := openFiles_eq (hlocks ▸ hn) hsized hledger
  have hopen := openAt_eq h.check hconfig hpair htree hfiles
  exact ⟨n, d', hopen, hstocked', by rw [hlocks', hlocks], hn⟩

/-- In fair weather a tree that was saved is loaded. -/
theorem loadTree_of_saved (hf : d.Fair) (ht : d.content? (treePath path) = some t.encode)
    (entry : Entry) : ∃ clock, loadTree entry path d = (.ok t, { d with clock }) := by
  obtain ⟨clock, hload⟩ := Disk.load_fair hf ht
  have hdecode : Tree.decode t.encode = .ok t := t.decode_body (by decide)
  refine ⟨clock, ?_⟩
  unfold loadTree Tree.load
  dsimp only
  rw [if_pos (Disk.has_of_content? ht), hload]
  dsimp only
  rw [hdecode]

/-- A later opening finds the files, and takes the ledger that was saved. -/
theorem openAt_stocked (hd : d.Stocked path t n) (h : Describes entry t)
    (hconfig : config.transfer.validate = .ok ()) (hn : n ∉ d.locks) {g : Ledger}
    (hcount : g.chunkCount = t.leafCount)
    (hkept : d.content? (statePath path) = some g.snapshot) :
    ∃ clock, openAt entry path config d =
      (.ok (atFile entry path t config n, { g.landed with path := some (statePath path) }),
        { d with clock, locks := n :: d.locks }) := by
  obtain ⟨a, hnode, hcontent, -⟩ := hd.tree
  have hencoded : d.content? (treePath path) = some t.encode := by
    unfold Disk.content?
    rw [hnode, ← hcontent]
  obtain ⟨k₁, htree⟩ := loadTree_of_saved hd.fair hencoded entry
  obtain ⟨k₂, hsized⟩ := Disk.openSized_stocked (hd.congr k₁ d.locks)
  obtain ⟨k₃, hledger⟩ := (hd.congr k₂ (n :: d.locks)).takeLedger hcount hkept
  have hpair : d.has path = d.has (statePath path) := by
    rw [Disk.has_of_content? hkept]
    unfold Disk.has
    rw [hd.data]
    rfl
  have hfree : n ∉ ({ d with clock := k₂ } : Disk).locks := hn
  exact ⟨k₃, openAt_eq h.check hconfig hpair htree (openFiles_eq hfree hsized hledger)⟩

end Cache

/-! ### While the cache is open -/

namespace Site

variable {σ : Type} {s s' : Site σ} {path : Path} {t : Tree} {n : Nat} {file : LocalFile}

/-- The site of an open cache: the disk is stocked, and the ledger is the one beside
the data. -/
structure Housed (path : Path) (t : Tree) (n : Nat) (s : Site σ) : Prop where
  stocked : s.disk.Stocked path t n
  path : s.ledger.path = some (statePath path)
  chunkCount : s.ledger.chunkCount = t.leafCount

theorem Housed.of_ledger {g : Ledger} (h : s.Housed path t n) (hp : g.path = s.ledger.path)
    (hc : g.chunkCount = s.ledger.chunkCount) : Housed path t n { s with ledger := g } :=
  ⟨h.stocked, hp.trans h.path, hc.trans h.chunkCount⟩

/-- Savings of the ledger do not touch the data. -/
theorem Housed.ready (h : s.Housed path t n) (hn : file.handle.node = .file n) : Ready file s where
  known := by
    unfold Disk.Knows
    rw [hn]
    exact h.stocked.backed.known
  shielded p hp := by
    obtain rfl := Option.some.inj (h.path.symm.trans hp)
    unfold Disk.Shields
    rw [hn]
    exact fun id hid => by cases hid; exact h.stocked.backed.shielded

/-- The ledger can be saved. -/
theorem Housed.persist (h : s.Housed path t n) :
    s.persist.2.Housed path t n ∧ s.persist.2.disk.locks = s.disk.locks ∧
      s.persist.2.disk.content n = s.disk.content n ∧
      s.persist.2.disk.content? (statePath path) = some s.ledger.snapshot := by
  have hsmall : s.ledger.chunkCount < UInt32.size := by
    rw [h.chunkCount]
    exact t.layout.chunkCount_lt
  obtain ⟨-, hstocked, hside, hdata, hlocks⟩ :=
    h.stocked.save (Ledger.length_snapshot_lt hsmall)
  rw [persist_of_path h.path]
  exact ⟨⟨hstocked, h.path, h.chunkCount⟩, hlocks, hdata, hside⟩

theorem Housed.of_touches {d : Disk} (h : s.Housed path t n) (hn : file.handle.node = .file n)
    (ht : file.Touches s.disk d) (hsize : (d.content n).length = (s.disk.content n).length) :
    Housed path t n { s with disk := d } ∧ d.locks = s.disk.locks :=
  ⟨⟨h.stocked.of_touches hn ht hsize, h.path, h.chunkCount⟩, (ht.changes n hn).locks⟩

variable [RangeSource σ] {c : List (Nat × ChunkState)}

/-- A step leaves the cache in its house. -/
theorem Step.housed (h : Step t file s c s') (hn : file.handle.node = .file n)
    (hs : s.Housed path t n) : s'.Housed path t n ∧ s'.disk.locks = s.disk.locks := by
  have hcontent : ∀ d : Disk, file.content d = d.content n := by
    intro d
    unfold LocalFile.content
    rw [hn]
  cases h with
  | claim h =>
    obtain ⟨-, -, -, -, rfl⟩ := Ledger.claim_eq_owner h
    exact ⟨hs.of_ledger rfl rfl, rfl⟩
  | ask r limit => exact ⟨⟨hs.stocked, hs.path, hs.chunkCount⟩, rfl⟩
  | blame h => exact ⟨hs.of_ledger rfl rfl, rfl⟩
  | @write i r b h hrange hlen hb =>
    refine hs.of_touches hn (file.touches_writeDurable r.start b s.disk) ?_
    obtain ⟨k, hk⟩ := LocalFile.content_writeDurable (hs.ready hn).known r.start b
    rw [hcontent, hcontent] at hk
    rw [hk]
    -- The place of a chunk does not reach past the end of the data.
    have hinside := Layout.write_inside hrange hlen
    have htake := List.length_take_le' k b
    refine Bytes.length_overlay_of_le _ _ _ ?_
    rw [hs.stocked.size]
    omega
  | settle h o ho => exact ⟨hs.of_ledger (Ledger.settle_path o) Ledger.settle_chunkCount, rfl⟩
  | look r =>
    refine hs.of_touches hn (file.touches_readRange r s.disk) ?_
    have hsame := (sameFiles_readRange file r s.disk).content_eq file
    rw [hcontent, hcontent] at hsame
    rw [hsame]
  | demote h hb => exact ⟨hs.of_ledger Ledger.demote_path Ledger.demote_chunkCount, rfl⟩
  | persist =>
    obtain ⟨hhoused, hlocks, -⟩ := hs.persist
    exact ⟨hhoused, hlocks⟩

/-- So does a run. -/
theorem Run.housed (h : Run t file s c s') (hn : file.handle.node = .file n)
    (hs : s.Housed path t n) : s'.Housed path t n ∧ s'.disk.locks = s.disk.locks := by
  induction h with
  | nil => exact ⟨hs, rfl⟩
  | cons hstep _ ih =>
    obtain ⟨hs', hlocks⟩ := hstep.housed hn hs
    obtain ⟨hs'', hlocks'⟩ := ih hs'
    exact ⟨hs'', hlocks'.trans hlocks⟩

end Site
end VerifiedCopy
