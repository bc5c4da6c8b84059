/-
# Savings that succeed

A disk is clear for a name if nothing stands in the way of saving a file under it:
no operation on the temporary name fails by itself, the directory is there, and
neither of the two names is a directory (`Disk.Clear`). A saving then succeeds. The
name leads to the new content, the temporary name is gone, and no other file has
changed (`save_of_clear`).

Work on the local file, whether it succeeds or not, takes no name, lock or content
from others (`LocalFile.Touches`), so the disk stays clear (`Clear.of_changes`), and a
sidecar beside the local file is changed by savings only (`Disk.Backed`).

Key definitions: `Disk.Changes`, `LocalFile.Touches`, `Disk.Clear`, `Disk.Saved`,
`Disk.Backed`.
Key theorems: `touches_writeDurable`, `save_of_clear`, `Saved.clear`,
`Backed.of_touches`, `Backed.save`, `load_eq_ok`.
-/
import VerifiedCopy.Proofs.Disk
import VerifiedCopy.Proofs.Ledger.Snapshot
import VerifiedCopy.Proofs.Results

namespace VerifiedCopy
namespace Disk

variable {d d' d'' : Disk} {h : Handle} {id : Nat} {p q : Path} {b : Bytes}

/-! ### Work on one file -/

/-- Of the files on the first disk only `id` can have other content on the second,
which has the same locks and the same weather. -/
structure Changes (id : Nat) (d d' : Disk) : Prop where
  grows : d.files.length ≤ d'.files.length
  others : ∀ id' < d.files.length, id' ≠ id → d'.content id' = d.content id'
  locks : d'.locks = d.locks
  weather : d'.weather = d.weather

theorem Changes.refl (id : Nat) (d : Disk) : Changes id d d :=
  ⟨Nat.le_refl _, fun _ _ _ => rfl, rfl, rfl⟩

theorem Changes.trans (h : Changes id d d') (h' : Changes id d' d'') : Changes id d d'' where
  grows := Nat.le_trans h.grows h'.grows
  others id' hid' hne := by
    rw [h'.others id' (Nat.lt_of_lt_of_le hid' h.grows) hne, h.others id' hid' hne]
  locks := h'.locks.trans h.locks
  weather := h'.weather.trans h.weather

theorem changes_tick (id : Nat) (d : Disk) (op : FileOp) (p : Path) :
    Changes id d (d.tick op p).2 :=
  ⟨Nat.le_refl _, fun _ _ _ => rfl, rfl, rfl⟩

theorem changes_setContent (d : Disk) (id : Nat) (b : Bytes) :
    Changes id d (d.setContent id b) where
  grows := Nat.le_of_eq List.length_set.symm
  others _ _ hne := content_setContent_ne (Ne.symm hne) b
  locks := rfl
  weather := rfl

theorem changes_store (hn : h.node = .file id) (d : Disk) (offset : Nat) (b : Bytes) :
    Changes id d (d.store h offset b) := by
  unfold store
  rw [hn]
  exact changes_setContent d id _

theorem changes_writeAt (hn : h.node = .file id) (d : Disk) (offset : Nat) (b : Bytes) :
    Changes id d (d.writeAt h offset b).2 := by
  have htick := changes_tick id d .write h.path
  unfold writeAt
  split
  · exact .refl id d
  · rcases ht : d.tick .write h.path with ⟨_ | fault, d'⟩
    · rw [ht] at htick
      dsimp only
      split
      · exact htick
      · split
        · exact htick
        · exact htick.trans (changes_store hn d' offset b)
    · rw [ht] at htick
      dsimp only
      split
      · exact htick.trans (changes_store hn d' offset _)
      · exact htick

theorem changes_sync (id : Nat) (d : Disk) (h : Handle) : Changes id d (d.sync h).2 := by
  have htick := changes_tick id d .sync h.path
  unfold sync
  rcases ht : d.tick .sync h.path with ⟨_ | fault, d'⟩
  · rw [ht] at htick; exact htick
  · rw [ht] at htick; exact htick

theorem changes_readAt (id : Nat) (d : Disk) (h : Handle) (offset len : Nat) :
    Changes id d (d.readAt h offset len).2 := by
  have htick := changes_tick id d .read h.path
  unfold readAt
  split
  · exact .refl id d
  · rcases ht : d.tick .read h.path with ⟨_ | fault, d'⟩
    · rw [ht] at htick; exact htick
    · rw [ht] at htick; exact htick

end Disk

namespace LocalFile

variable {f : LocalFile} {d d' d'' : Disk}

/-- Work on the local file only. -/
structure Touches (f : LocalFile) (d d' : Disk) : Prop where
  names : d'.names = d.names
  changes : ∀ id, f.handle.node = .file id → d.Changes id d'

theorem Touches.refl (f : LocalFile) (d : Disk) : f.Touches d d :=
  ⟨rfl, fun id _ => .refl id d⟩

theorem Touches.trans (h : f.Touches d d') (h' : f.Touches d' d'') : f.Touches d d'' :=
  ⟨h'.names.trans h.names, fun id hn => (h.changes id hn).trans (h'.changes id hn)⟩

theorem touches_writeDurable (f : LocalFile) (offset : Nat) (b : Bytes) (d : Disk) :
    f.Touches d (f.writeDurable offset b d).2 := by
  refine ⟨f.names_writeDurable offset b d, fun id hn => ?_⟩
  have hwrite := Disk.changes_writeAt hn d offset b
  unfold writeDurable
  rcases hw : d.writeAt f.handle offset b with ⟨e | u, d'⟩
  · rw [hw] at hwrite; exact hwrite
  · rw [hw] at hwrite; exact hwrite.trans (Disk.changes_sync id d' f.handle)

theorem touches_readRange (f : LocalFile) (r : ByteRange) (d : Disk) :
    f.Touches d (f.readRange r d).2 :=
  ⟨(d.sameFiles_readAt f.handle r.start r.size).1,
    fun id _ => Disk.changes_readAt id d f.handle r.start r.size⟩

end LocalFile

/-- What is laid over nothing is all there is. -/
theorem Bytes.nil_overlay (b : Bytes) : Bytes.overlay [] 0 b = b := by
  cases b with
  | nil => rfl
  | cons x xs => simp [overlay]

/-! ### The directory of a name -/

namespace Disk

variable {d d' d'' : Disk} {h : Handle} {id : Nat} {p q : Path} {b : Bytes}

/-- A name without a slash that is added to another leaves it in its directory. -/
theorem parent?_append (p : Path) {s : String} (hs : '/' ∉ s.toList) :
    parent? (p ++ s) = parent? p := by
  have hdrop : (s.toList.reverse ++ p.toList.reverse).dropWhile (· != '/') =
      p.toList.reverse.dropWhile (· != '/') := by
    rw [List.dropWhile_append_of_pos]
    intro c hc
    rw [bne_iff_ne]
    rintro rfl
    exact hs (List.mem_reverse.1 hc)
  unfold parent?
  rw [String.toList_append, List.reverse_append, hdrop]

/-- The name of a directory is shorter than the names in it. -/
theorem length_lt_of_parent? (h : parent? p = some q) : q.length < p.length := by
  unfold parent? at h
  split at h
  · cases h
  · rename_i c rest hrest
    obtain rfl := Option.some.inj h
    have hle : (c :: rest).length ≤ p.toList.reverse.length := by
      rw [← hrest]
      exact (List.dropWhile_sublist _).length_le
    rw [List.length_cons, List.length_reverse] at hle
    rw [String.length_ofList, List.length_reverse, ← String.length_toList]
    omega

/-- There is room for a name as long as its directory is there. -/
theorem hasRoomFor_congr (h : ∀ q, parent? p = some q → d'.node? q = d.node? q) :
    d'.hasRoomFor p = d.hasRoomFor p := by
  unfold hasRoomFor
  cases hp : parent? p with
  | none => rfl
  | some q =>
    dsimp only
    rw [h q hp]

theorem hasRoomFor_append (d : Disk) (p : Path) {s : String} (hs : '/' ∉ s.toList) :
    d.hasRoomFor (p ++ s) = d.hasRoomFor p := by
  unfold hasRoomFor
  rw [parent?_append p hs]

theorem hasRoomFor_temporaryFor (d : Disk) (p : Path) :
    d.hasRoomFor (temporaryFor p) = d.hasRoomFor p :=
  d.hasRoomFor_append p (by decide)

/-! ### Clear disks -/

/-- Nothing stands in the way of saving a file under the name `p`. -/
structure Clear (d : Disk) (p : Path) : Prop where
  weather : ∀ t op, d.weather t op (temporaryFor p) = none
  room : d.hasRoomFor p = true
  target : d.node? p ≠ some .directory
  temporary : d.node? (temporaryFor p) ≠ some .directory
  known : ∀ id, d.node? (temporaryFor p) = some (.file id) → id < d.files.length

/-- Work on one file that has kept the names leaves the disk clear. -/
theorem Clear.of_changes (hc : d.Clear p) (h : Changes id d d') (hn : d'.names = d.names) :
    d'.Clear p := by
  have hnode : ∀ q, d'.node? q = d.node? q := fun q => by unfold node?; rw [hn]
  refine ⟨?_, ?_, ?_, ?_, fun id' hid' => ?_⟩
  · rw [h.weather]
    exact hc.weather
  · rw [hasRoomFor_congr fun q _ => hnode q]
    exact hc.room
  · rw [hnode]
    exact hc.target
  · rw [hnode]
    exact hc.temporary
  · rw [hnode] at hid'
    exact Nat.lt_of_lt_of_le (hc.known id' hid') h.grows

theorem Clear.tick (hc : d.Clear p) (op : FileOp) :
    d.tick op (temporaryFor p) = (none, { d with clock := d.clock + 1 }) := by
  unfold Disk.tick
  rw [hc.weather]

/-- The file `id` has the name `q` and the content `b`, and was made for that or had
the name before. -/
structure Placed (d : Disk) (q : Path) (b : Bytes) (id : Nat) (d' : Disk) : Prop where
  changes : Changes id d d'
  node : ∀ q', d'.node? q' = if q' = q then some (.file id) else d.node? q'
  known : id < d'.files.length
  content : d'.content id = b
  origin : d.node? q = some (.file id) ∨ d.node? q = none ∧ id = d.files.length

theorem Placed.setContent (h : Placed d q b id d') (b' : Bytes) :
    Placed d q b' id (d'.setContent id b') where
  changes := h.changes.trans (changes_setContent d' id b')
  node := h.node
  known := Nat.lt_of_lt_of_eq h.known List.length_set.symm
  content := content_setContent_self h.known b'
  origin := h.origin

/-- The clock makes no difference. -/
theorem Placed.of_clock {k : Nat} (h : Placed { d with clock := k } q b id d') :
    Placed d q b id d' :=
  ⟨⟨h.changes.grows, h.changes.others, h.changes.locks, h.changes.weather⟩, h.node, h.known,
    h.content, h.origin⟩

theorem Placed.clock (h : Placed d q b id d') (k : Nat) :
    Placed d q b id { d' with clock := k } :=
  ⟨⟨h.changes.grows, h.changes.others, h.changes.locks, h.changes.weather⟩, h.node, h.known,
    h.content, h.origin⟩

theorem placed_create (hn : d.node? q = none) : Placed d q [] d.files.length (d.create q).2 := by
  have hfiles : (d.create q).2.files = d.files ++ [[]] := rfl
  have hlen : d.files.length < (d.create q).2.files.length := by
    rw [hfiles, List.length_append]
    exact Nat.lt_succ_self _
  refine ⟨⟨Nat.le_of_lt hlen, fun id' hid' _ => ?_, rfl, rfl⟩, node?_bind d q _, hlen, ?_,
    .inr ⟨hn, rfl⟩⟩
  · unfold content
    rw [hfiles, List.getD_eq_getElem?_getD, List.getElem?_append_left hid',
      ← List.getD_eq_getElem?_getD]
  · unfold content
    rw [hfiles, List.getD_eq_getElem?_getD, List.getElem?_append_right (Nat.le_refl _),
      Nat.sub_self]
    rfl

/-- What a name led to is what is placed there. -/
theorem placed_of_node (hn : d.node? q = some (.file id)) (hid : id < d.files.length) :
    Placed d q (d.content id) id d where
  changes := .refl id d
  node r := by
    by_cases hr : r = q
    · rw [if_pos hr, hr]
      exact hn
    · rw [if_neg hr]
  known := hid
  content := rfl
  origin := .inl hn

/-- An empty file is opened under the temporary name. -/
theorem openEmpty_of_clear (hc : d.Clear p) : ∃ id d',
    d.openEmpty (temporaryFor p) = (.ok ⟨temporaryFor p, .file id, true⟩, d') ∧
      Placed d (temporaryFor p) [] id d' := by
  have hsame : ({ d with clock := d.clock + 1 } : Disk).node? (temporaryFor p) =
      d.node? (temporaryFor p) := rfl
  unfold openEmpty openWrite
  rw [hc.tick]
  dsimp only
  rw [hsame]
  cases hnode : d.node? (temporaryFor p) with
  | some n =>
    cases n with
    | directory => exact absurd hnode hc.temporary
    | file id =>
      have hfound := placed_of_node hnode (hc.known id hnode)
      exact ⟨id, _, rfl, (hfound.clock _).setContent []⟩
  | none =>
    have hroom : ({ d with clock := d.clock + 1 } : Disk).hasRoomFor (temporaryFor p) = true :=
      (d.hasRoomFor_temporaryFor p).trans hc.room
    dsimp only
    rw [if_pos hroom]
    have hmade := placed_create (d := { d with clock := d.clock + 1 }) (hsame.trans hnode)
    exact ⟨d.files.length, _, rfl, (hmade.setContent []).of_clock⟩

theorem store_of_empty (h : d.content id = []) {q : Path} (b : Bytes) :
    d.store ⟨q, .file id, true⟩ 0 b = d.setContent id b := by
  unfold store
  dsimp only
  rw [h, Bytes.nil_overlay]

/-- What is written to a new file at its start is its content. -/
theorem Placed.write (hc : d.Clear p) (hp : Placed d (temporaryFor p) [] id d')
    (hb : b.length < maxOffset) : ∃ d'',
    d'.writeAt ⟨temporaryFor p, .file id, true⟩ 0 b = (.ok (), d'') ∧
      Placed d (temporaryFor p) b id d'' := by
  unfold writeAt
  by_cases hnil : b = []
  · rw [if_pos hnil, hnil]
    exact ⟨d', rfl, hp⟩
  · have htick : d'.tick .write (temporaryFor p) = (none, { d' with clock := d'.clock + 1 }) := by
      unfold Disk.tick
      rw [hp.changes.weather, hc.weather]
    rw [if_neg hnil, htick]
    dsimp only
    rw [if_neg (by decide), if_neg (by omega)]
    have hempty : ({ d' with clock := d'.clock + 1 } : Disk).content id = [] := hp.content
    rw [store_of_empty hempty]
    exact ⟨_, rfl, (hp.clock _).setContent b⟩

theorem Placed.sync (hc : d.Clear p) (hp : Placed d (temporaryFor p) b id d') (h : Handle)
    (hpath : h.path = temporaryFor p) : ∃ d'', d'.sync h = (.ok (), d'') ∧
      Placed d (temporaryFor p) b id d'' := by
  have htick : d'.tick .sync h.path = (none, { d' with clock := d'.clock + 1 }) := by
    unfold Disk.tick
    rw [hpath, hp.changes.weather, hc.weather]
  unfold Disk.sync
  rw [htick]
  exact ⟨_, rfl, hp.clock _⟩

/-- The file `id` has been saved under the name `p` with the content `b`. It had the temporary
name, which is gone unless the file had the name `p` as well. -/
structure Saved (d : Disk) (p : Path) (b : Bytes) (id : Nat) (d' : Disk) : Prop where
  changes : Changes id d d'
  node : ∀ q, q ≠ temporaryFor p → d'.node? q = if q = p then some (.file id) else d.node? q
  temporary : d'.node? (temporaryFor p) =
    if d.node? p = some (.file id) then some (.file id) else none
  known : id < d'.files.length
  content : d'.content id = b
  origin : d.node? (temporaryFor p) = some (.file id) ∨
    d.node? (temporaryFor p) = none ∧ id = d.files.length

/-- The file with the temporary name, under its own. -/
theorem Placed.saved (hp : Placed d (temporaryFor p) b id d') : Saved d p b id
    ((d'.tick .rename (temporaryFor p)).2.rebind (temporaryFor p) p (.file id)) := by
  have htarget : (d'.tick .rename (temporaryFor p)).2.node? p = d.node? p :=
    (hp.node p).trans (if_neg (temporaryFor_ne p))
  have h := hp.changes.trans (changes_tick id d' .rename (temporaryFor p))
  unfold rebind
  by_cases hsame : d.node? p = some (.file id)
  · rw [if_pos (htarget.trans hsame)]
    refine ⟨h, fun q hq => ?_, ?_, hp.known, hp.content, hp.origin⟩
    · refine ((hp.node q).trans (if_neg hq)).trans ?_
      by_cases hqp : q = p
      · rw [if_pos hqp, hqp, hsame]
      · rw [if_neg hqp]
    · rw [if_pos hsame]
      exact (hp.node _).trans (if_pos rfl)
  · rw [if_neg fun e => hsame (htarget.symm.trans e)]
    refine ⟨⟨h.grows, h.others, h.locks, h.weather⟩, fun q hq => ?_, ?_, hp.known, hp.content,
      hp.origin⟩
    · rw [node?_bind, node?_forget, if_neg hq]
      by_cases hqp : q = p
      · rw [if_pos hqp, if_pos hqp]
      · rw [if_neg hqp, if_neg hqp]
        exact (hp.node q).trans (if_neg hq)
    · rw [node?_bind, node?_forget, if_neg (temporaryFor_ne p).symm, if_pos rfl, if_neg hsame]

/-- What was there without the temporary name is not what has been saved. -/
theorem Saved.ne {k : Nat} (hs : Saved d p b id d') (hk : k < d.files.length)
    (hne : d.node? (temporaryFor p) ≠ some (.file k)) : k ≠ id := by
  rintro rfl
  rcases hs.origin with h | ⟨-, h⟩
  · exact hne h
  · exact Nat.ne_of_lt hk h

/-- The temporary name leads to the file that has been saved, or it is gone. -/
theorem Saved.temporary_cases (hs : Saved d p b id d') :
    d'.node? (temporaryFor p) = some (.file id) ∨ d'.node? (temporaryFor p) = none := by
  rw [hs.temporary]
  by_cases hsame : d.node? p = some (.file id)
  · exact .inl (if_pos hsame)
  · exact .inr (if_neg hsame)

theorem Saved.temporary_ne {k : Nat} (hs : Saved d p b id d') (hk : k < d.files.length)
    (hne : d.node? (temporaryFor p) ≠ some (.file k)) :
    d'.node? (temporaryFor p) ≠ some (.file k) := by
  intro e
  rcases hs.temporary_cases with h | h
  · exact hs.ne hk hne (Node.file.inj (Option.some.inj (e.symm.trans h)))
  · cases h.symm.trans e

/-- The new file gets its name. -/
theorem Placed.rename (hc : d.Clear p) (hp : Placed d (temporaryFor p) b id d') : ∃ d'',
    d'.rename (temporaryFor p) p = (.ok (), d'') ∧ Saved d p b id d'' := by
  have hne := temporaryFor_ne p
  have htick : d'.tick .rename (temporaryFor p) = (none, { d' with clock := d'.clock + 1 }) := by
    unfold Disk.tick
    rw [hp.changes.weather, hc.weather]
  have hsource : ({ d' with clock := d'.clock + 1 } : Disk).node? (temporaryFor p) =
      some (.file id) := (hp.node _).trans (if_pos rfl)
  have htarget : ({ d' with clock := d'.clock + 1 } : Disk).node? p ≠ some .directory := by
    show d'.node? p ≠ _
    rw [hp.node, if_neg hne]
    exact hc.target
  have hroom : ({ d' with clock := d'.clock + 1 } : Disk).hasRoomFor p = true := by
    rw [← hc.room]
    refine hasRoomFor_congr fun q hq => ?_
    rw [← parent?_append p (s := ".tmp") (by decide)] at hq
    have hlt := length_lt_of_parent? hq
    refine (hp.node q).trans (if_neg fun e => ?_)
    rw [e] at hlt
    exact Nat.lt_irrefl _ hlt
  unfold Disk.rename
  rw [htick]
  dsimp only
  rw [hsource]
  dsimp only
  rw [if_neg htarget, if_pos hroom]
  have hsaved := hp.saved
  rw [htick] at hsaved
  exact ⟨_, rfl, hsaved⟩

/-- A saving succeeds on a clear disk. -/
theorem save_of_clear (hc : d.Clear p) (hb : b.length < maxOffset) :
    (d.save p b).1 = .ok () ∧ ∃ id, Saved d p b id (d.save p b).2 := by
  obtain ⟨id, d₁, hopen, h₁⟩ := openEmpty_of_clear hc
  obtain ⟨d₂, hwrite, h₂⟩ := h₁.write hc hb
  obtain ⟨d₃, hsync, h₃⟩ := h₂.sync hc ⟨temporaryFor p, .file id, true⟩ rfl
  obtain ⟨d₄, hrename, h₄⟩ := h₃.rename hc
  have hsave : d.save p b = (.ok (), d₄) := by
    simp only [save, saveSteps, SaveStep.all, SaveStep.run, hopen, hwrite, hsync, hrename,
      mapError_ok]
  rw [hsave]
  exact ⟨rfl, id, h₄⟩

/-- After a saving the disk is clear for the next one. -/
theorem Saved.clear (hc : d.Clear p) (hs : Saved d p b id d') : d'.Clear p := by
  have htmp := hs.temporary_cases
  refine ⟨?_, ?_, ?_, fun e => ?_, fun id' hid' => ?_⟩
  · rw [hs.changes.weather]
    exact hc.weather
  · rw [← hc.room]
    refine hasRoomFor_congr fun q hq => ?_
    have hlt := length_lt_of_parent? hq
    have hq' : q ≠ p := fun e => Nat.lt_irrefl _ (by rw [e] at hlt; exact hlt)
    rw [← parent?_append p (s := ".tmp") (by decide)] at hq
    have hlt' := length_lt_of_parent? hq
    have hq'' : q ≠ temporaryFor p := fun e => Nat.lt_irrefl _ (by rw [e] at hlt'; exact hlt')
    rw [hs.node q hq'', if_neg hq']
  · rw [hs.node p (temporaryFor_ne p), if_pos rfl]
    exact fun e => nomatch Option.some.inj e
  · rcases htmp with h | h
    · cases h.symm.trans e
    · cases h.symm.trans e
  · rcases htmp with h | h
    · cases h.symm.trans hid'
      exact hs.known
    · cases h.symm.trans hid'

theorem Saved.content? (hs : Saved d p b id d') : d'.content? p = some b := by
  unfold Disk.content?
  rw [hs.node p (temporaryFor_ne p), if_pos rfl]
  exact congrArg some hs.content

end Disk

/-! ### A sidecar beside a local file -/

namespace Disk

variable {d d' : Disk} {p : Path} {n : Nat}

/-- A file can be saved under `p` at any time, and neither that file nor its temporary
file is the file `n`. -/
structure Backed (d : Disk) (p : Path) (n : Nat) : Prop where
  clear : d.Clear p
  apart : d.node? p ≠ some (.file n)
  shielded : d.node? (temporaryFor p) ≠ some (.file n)
  known : n < d.files.length
  sidecar : ∀ id, d.node? p = some (.file id) → id < d.files.length

/-- Work on the local file leaves the sidecar alone. -/
theorem Backed.of_touches {file : LocalFile} (hb : d.Backed p n)
    (hn : file.handle.node = .file n) (h : file.Touches d d') :
    d'.Backed p n ∧ d'.content? p = d.content? p := by
  have hchanges := h.changes n hn
  have hnode : ∀ q, d'.node? q = d.node? q := fun q => by unfold node?; rw [h.names]
  refine ⟨⟨hb.clear.of_changes hchanges h.names, ?_, ?_,
    Nat.lt_of_lt_of_le hb.known hchanges.grows, fun id hid => ?_⟩, ?_⟩
  · rw [hnode]
    exact hb.apart
  · rw [hnode]
    exact hb.shielded
  · rw [hnode] at hid
    exact Nat.lt_of_lt_of_le (hb.sidecar id hid) hchanges.grows
  · unfold content?
    rw [hnode]
    split
    · rename_i id hid
      rw [hchanges.others id (hb.sidecar id hid) fun e => hb.apart (by rw [hid, e])]
    · rfl

/-- A saving puts the sidecar in its place. -/
theorem Backed.save {b : Bytes} (hb : d.Backed p n) (hlen : b.length < maxOffset) :
    (d.save p b).1 = .ok () ∧ (d.save p b).2.Backed p n ∧ (d.save p b).2.content? p = some b := by
  obtain ⟨hok, id, hs⟩ := save_of_clear hb.clear hlen
  have hne : n ≠ id := hs.ne hb.known hb.shielded
  refine ⟨hok, ⟨hs.clear hb.clear, ?_, hs.temporary_ne hb.known hb.shielded,
    Nat.lt_of_lt_of_le hb.known hs.changes.grows, fun id' hid' => ?_⟩, hs.content?⟩
  · rw [hs.node p (temporaryFor_ne p), if_pos rfl]
    exact fun e => hne (Node.file.inj (Option.some.inj e)).symm
  · rw [hs.node p (temporaryFor_ne p), if_pos rfl] at hid'
    rw [← Node.file.inj (Option.some.inj hid')]
    exact hs.known

/-- What is loaded is the content, and loading changes no file. -/
theorem load_eq_ok {b : Bytes} (h : d.load p = (.ok b, d')) (file : LocalFile) :
    d.content? p = some b ∧ file.Touches d d' := by
  unfold load openRead at h
  rcases ht : d.tick .access p with ⟨_ | fault, d₁⟩
  · have hsame : d₁ = { d with clock := d.clock + 1 } := congrArg Prod.snd ht.symm
    rw [ht] at h
    dsimp only at h
    rw [show d₁.node? p = d.node? p by rw [hsame]; rfl] at h
    cases hn : d.node? p with
    | none => rw [hn] at h; cases h
    | some node =>
      rw [hn] at h
      dsimp only at h
      unfold readAll at h
      rcases ht' : d₁.tick .read p with ⟨_ | fault, d₂⟩
      · have hsame' : d₂ = { d₁ with clock := d₁.clock + 1 } := congrArg Prod.snd ht'.symm
        rw [ht'] at h
        cases node with
        | directory => cases h
        | file id =>
          cases h
          refine ⟨?_, ?_⟩
          · unfold content?
            rw [hn, hsame', hsame]
            rfl
          · rw [hsame', hsame]
            exact ⟨rfl, fun id _ => ⟨Nat.le_refl _, fun _ _ _ => rfl, rfl, rfl⟩⟩
      · rw [ht'] at h
        cases h
  · rw [ht] at h
    cases h

end Disk

namespace Ledger

theorem length_snapshot_lt {g : Ledger} (h : g.chunkCount < UInt32.size) :
    g.snapshot.length < Disk.maxOffset := by
  unfold snapshot Sidecar.withChecksum
  rw [List.length_append, length_body, Checksum.length_trailer]
  have hbytes : bitBytes g.chunkCount ≤ g.chunkCount + 1 := by
    unfold bitBytes
    omega
  have hsize : UInt32.size = 4294967296 := rfl
  unfold Disk.maxOffset headerLength
  omega

end Ledger

end VerifiedCopy
