/-
# What the operations of the disk do to the content of one file

A handle is known to a disk if its file is there and a directory is not open for
writing (`Disk.Knows`). Reading and bringing to stable storage change nothing
but the clock (`SameFiles`). A write lays some of its bytes over the content of
its file, and all of them if it succeeds (`content_writeDurable`).

Saving a sidecar works on a file of its own. A file is shielded from a save
(`Disk.Shields`) if the temporary name does not lead to it; the save then keeps
its content and the shield (`Disk.save_of_shields`).

Key definitions: `Disk.Knows`, `Disk.SameFiles`, `Disk.Shields`, `Saving.Spares`.
Key theorems: `openRead_of_content?`, `openWrite_cases`, `rename_cases`,
`content_writeDurable`, `content_writeDurable_of_ok`, `Disk.save_of_shields`.
-/
import VerifiedCopy.Ledger.Store
import VerifiedCopy.LocalFile
import VerifiedCopy.Proofs.Ledger

namespace VerifiedCopy
namespace Disk

variable {d d' d'' : Disk} {h : Handle} {id : Nat}

/-- The file of a handle is on the disk, and a directory is not open for
writing. -/
def Knows (d : Disk) (h : Handle) : Prop :=
  match h.node with
  | .directory => h.writable = false
  | .file id => id < d.files.length

/-- The second disk has the names and files of the first. -/
def SameFiles (d d' : Disk) : Prop := d'.names = d.names ∧ d'.files = d.files

/-! ### Operations that change the clock only -/

theorem sameFiles_tick (d : Disk) (op : FileOp) (p : Path) : SameFiles d (d.tick op p).2 :=
  ⟨rfl, rfl⟩

theorem sameFiles_sync (d : Disk) (h : Handle) : SameFiles d (d.sync h).2 := by
  unfold sync tick
  cases d.weather d.clock .sync h.path with
  | none => exact ⟨rfl, rfl⟩
  | some f => exact ⟨rfl, rfl⟩

theorem sameFiles_readAt (d : Disk) (h : Handle) (offset len : Nat) :
    SameFiles d (d.readAt h offset len).2 := by
  unfold readAt tick
  by_cases hlen : len = 0
  · rw [if_pos hlen]
    exact ⟨rfl, rfl⟩
  · rw [if_neg hlen]
    cases d.weather d.clock .read h.path with
    | none => exact ⟨rfl, rfl⟩
    | some f => exact ⟨rfl, rfl⟩

/-- What is read is what the file of the handle holds at that place, all of it. -/
theorem readAt_eq_ok {offset len : Nat} {b : Bytes} (hr : (d.readAt h offset len).1 = .ok b)
    (hlen : len ≠ 0) :
    ∃ id, h.node = .file id ∧ b = (d.content id).slice offset len ∧ b.length = len := by
  unfold readAt tick at hr
  rw [if_neg hlen] at hr
  cases hw : d.weather d.clock .read h.path with
  | some f => rw [hw] at hr; cases hr
  | none =>
    rw [hw] at hr
    unfold bytesAt at hr
    dsimp only at hr
    split at hr
    · cases hr
    · split at hr
      · cases hr
      · rename_i id hn
        split at hr
        · rename_i hl
          cases hr
          exact ⟨id, hn, rfl, hl⟩
        · cases hr

theorem exists_node_of_content? {p : Path} {b : Bytes} (hfile : d.content? p = some b) :
    ∃ id, d.node? p = some (.file id) ∧ d.content id = b := by
  unfold content? at hfile
  split at hfile
  · rename_i id hid
    exact ⟨id, hid, Option.some.inj hfile⟩
  · cases hfile

/-- A file that is there can be opened, unless the weather is against it. -/
theorem openRead_of_content? {p : Path} {b : Bytes} (hfile : d.content? p = some b)
    (hcalm : ∀ n op, d.weather n op p = none) :
    ∃ id, d.openRead p = (.ok ⟨p, .file id, false⟩, { d with clock := d.clock + 1 }) ∧
      d.content id = b := by
  obtain ⟨id, hid, hb⟩ := exists_node_of_content? hfile
  refine ⟨id, ?_, hb⟩
  have hnode : ({ d with clock := d.clock + 1 } : Disk).node? p = some (.file id) := hid
  unfold openRead tick
  rw [hcalm]
  dsimp only
  rw [hnode]

/-! ### Writing -/

theorem content_setContent_self (hid : id < d.files.length) (b : Bytes) :
    (d.setContent id b).content id = b := by
  unfold content setContent
  rw [List.getD_eq_getElem?_getD, List.getElem?_set_self hid]
  rfl

theorem content_setContent_ne {id' : Nat} (hid : id' ≠ id) (b : Bytes) :
    (d.setContent id' b).content id = d.content id := by
  unfold content setContent
  rw [List.getD_eq_getElem?_getD, List.getElem?_set_ne hid, ← List.getD_eq_getElem?_getD]

/-- A write stores some bytes from the front of what is written, or nothing. -/
theorem writeAt_disk (d : Disk) (h : Handle) (offset : Nat) (b : Bytes) :
    ∃ d₀, SameFiles d d₀ ∧ ((d.writeAt h offset b).2 = d₀ ∨
      h.writable = true ∧ ∃ n, (d.writeAt h offset b).2 = d₀.store h offset (b.take n)) := by
  unfold writeAt
  by_cases hb : b = []
  · rw [if_pos hb]
    exact ⟨d, ⟨rfl, rfl⟩, .inl rfl⟩
  · rw [if_neg hb]
    refine ⟨(d.tick .write h.path).2, ⟨rfl, rfl⟩, ?_⟩
    unfold tick
    cases d.weather d.clock .write h.path with
    | some f =>
      dsimp only
      split
      · rename_i hw
        exact .inr ⟨hw, f.written, rfl⟩
      · exact .inl rfl
    | none =>
      dsimp only
      split
      · exact .inl rfl
      · rename_i hw
        split
        · exact .inl rfl
        · exact .inr ⟨by simpa using hw, b.length, by rw [List.take_length]⟩

/-- A write that succeeds stores everything. -/
theorem writeAt_disk_of_ok {offset : Nat} {b : Bytes} (hb : b ≠ [])
    (hok : (d.writeAt h offset b).1 = .ok ()) :
    h.writable = true ∧
      (d.writeAt h offset b).2 = (d.tick .write h.path).2.store h offset b := by
  unfold writeAt at hok ⊢
  rw [if_neg hb] at hok ⊢
  unfold tick at hok ⊢
  cases hw : d.weather d.clock .write h.path with
  | some f => rw [hw] at hok; cases hok
  | none =>
    rw [hw] at hok
    dsimp only at hok ⊢
    cases hwr : h.writable with
    | false => rw [if_pos hwr] at hok; cases hok
    | true =>
      rw [hwr, if_neg (by decide)] at hok
      rw [if_neg (by decide)]
      split at hok
      · cases hok
      · rename_i hoff
        rw [if_neg hoff]
        exact ⟨rfl, rfl⟩

theorem store_names (d : Disk) (h : Handle) (offset : Nat) (b : Bytes) :
    (d.store h offset b).names = d.names := by
  unfold store
  split <;> rfl

theorem store_length_files (d : Disk) (h : Handle) (offset : Nat) (b : Bytes) :
    (d.store h offset b).files.length = d.files.length := by
  unfold store
  split
  · rfl
  · exact List.length_set

theorem Knows.of_length (hk : d.Knows h) (hl : d.files.length ≤ d'.files.length) : d'.Knows h := by
  unfold Knows at hk ⊢
  split
  · rename_i hn; rw [hn] at hk; exact hk
  · rename_i id hn; rw [hn] at hk; exact Nat.lt_of_lt_of_le hk hl

/-- What is open for writing is a file. -/
theorem Knows.exists_file (hk : d.Knows h) (hw : h.writable = true) :
    ∃ id, h.node = .file id ∧ id < d.files.length := by
  unfold Knows at hk
  split at hk
  · rw [hw] at hk; cases hk
  · rename_i id hn; exact ⟨id, hn, hk⟩

/-! ### The local file -/

theorem SameFiles.content_eq (hs : SameFiles d d') (f : LocalFile) :
    f.content d' = f.content d := by
  unfold LocalFile.content content
  rw [hs.2]

end Disk

namespace LocalFile

open Disk (Knows SameFiles)

variable {d : Disk} {f : LocalFile}

theorem content_of_node {id : Nat} (hn : f.handle.node = .file id) (d : Disk) :
    f.content d = d.content id := by
  unfold content
  rw [hn]

theorem content_store (hk : d.Knows f.handle) (hw : f.handle.writable = true) (offset : Nat)
    (b : Bytes) : f.content (d.store f.handle offset b) = (f.content d).overlay offset b := by
  obtain ⟨id, hn, hid⟩ := hk.exists_file hw
  rw [content_of_node hn, content_of_node hn]
  unfold Disk.store
  rw [hn]
  exact Disk.content_setContent_self hid _

/-- The disk after a durable write is the one after the write, with another
clock. -/
theorem writeDurable_disk (f : LocalFile) (offset : Nat) (b : Bytes) (d : Disk) :
    SameFiles (d.writeAt f.handle offset b).2 (f.writeDurable offset b d).2 ∧
      ((f.writeDurable offset b d).1 = .ok () → (d.writeAt f.handle offset b).1 = .ok ()) := by
  unfold writeDurable
  rcases hw : d.writeAt f.handle offset b with ⟨e | u, d'⟩
  · exact ⟨⟨rfl, rfl⟩, (nomatch ·)⟩
  · exact ⟨Disk.sameFiles_sync d' f.handle, fun _ => rfl⟩

theorem names_writeDurable (f : LocalFile) (offset : Nat) (b : Bytes) (d : Disk) :
    (f.writeDurable offset b d).2.names = d.names := by
  rw [(f.writeDurable_disk offset b d).1.1]
  obtain ⟨d₀, hs, h | ⟨-, n, h⟩⟩ := d.writeAt_disk f.handle offset b
  · rw [h, hs.1]
  · rw [h, Disk.store_names, hs.1]

theorem length_files_writeDurable (f : LocalFile) (offset : Nat) (b : Bytes) (d : Disk) :
    (f.writeDurable offset b d).2.files.length = d.files.length := by
  rw [(f.writeDurable_disk offset b d).1.2]
  obtain ⟨d₀, hs, h | ⟨-, n, h⟩⟩ := d.writeAt_disk f.handle offset b
  · rw [h, hs.2]
  · rw [h, Disk.store_length_files, hs.2]

/-- A durable write lays some bytes from the front of what is written over the
content, also if it fails. -/
theorem content_writeDurable (hk : d.Knows f.handle) (offset : Nat) (b : Bytes) :
    ∃ n, f.content (f.writeDurable offset b d).2 = (f.content d).overlay offset (b.take n) := by
  rw [(f.writeDurable_disk offset b d).1.content_eq f]
  obtain ⟨d₀, hs, h | ⟨hw, n, h⟩⟩ := d.writeAt_disk f.handle offset b
  · exact ⟨0, by rw [h, hs.content_eq f, List.take_zero]; rfl⟩
  · have hk₀ : d₀.Knows f.handle := hk.of_length (Nat.le_of_eq (congrArg List.length hs.2.symm))
    exact ⟨n, by rw [h, content_store hk₀ hw, hs.content_eq f]⟩

/-- A durable write that succeeds lays everything over the content. -/
theorem content_writeDurable_of_ok (hk : d.Knows f.handle) {offset : Nat} {b : Bytes} (hb : b ≠ [])
    (hok : (f.writeDurable offset b d).1 = .ok ()) :
    f.content (f.writeDurable offset b d).2 = (f.content d).overlay offset b := by
  obtain ⟨hsame, hwrite⟩ := f.writeDurable_disk offset b d
  obtain ⟨hwr, h⟩ := Disk.writeAt_disk_of_ok hb (hwrite hok)
  have hs := d.sameFiles_tick .write f.handle.path
  have hk₀ : (d.tick .write f.handle.path).2.Knows f.handle :=
    hk.of_length (Nat.le_of_eq (congrArg List.length hs.2.symm))
  rw [hsame.content_eq f, h, content_store hk₀ hwr, hs.content_eq f]

end LocalFile

/-! ### Saving a sidecar -/

namespace Disk

variable {d : Disk} {p q : Path} {h : Handle} {id : Nat}

theorem node?_forget (d : Disk) (p q : Path) :
    (d.forget p).node? q = if q = p then none else d.node? q := by
  unfold node? forget
  by_cases hq : q = p
  · rw [if_pos hq, hq]
    exact lookup_filter_self d.names p
  · rw [if_neg hq]
    exact lookup_filter_ne d.names hq

theorem node?_bind (d : Disk) (p : Path) (n : Node) (q : Path) :
    (d.bind p n).node? q = if q = p then some n else d.node? q := by
  have hcons : (d.bind p n).node? q = if q = p then some n else (d.forget p).node? q := by
    unfold node? bind
    rw [List.lookup_cons]
    by_cases hq : q = p
    · rw [if_pos hq, hq, beq_self_eq_true]
    · rw [if_neg hq, beq_false_of_ne hq]
  rw [hcons, node?_forget]
  by_cases hq : q = p
  · rw [if_pos hq, if_pos hq]
  · rw [if_neg hq, if_neg hq, if_neg hq]

/-- The temporary name for `p` does not lead to the file of a handle. -/
def Shields (d : Disk) (p : Path) (h : Handle) : Prop :=
  ∀ id, h.node = .file id → d.node? (temporaryFor p) ≠ some (.file id)

end Disk

namespace Disk

/-- Opening for writing fails, finds a file or makes one. -/
theorem openWrite_cases (d : Disk) (p : Path) :
    (∃ e, d.openWrite p = (.error e, (d.tick .access p).2)) ∨
    (∃ id, d.node? p = some (.file id) ∧
      d.openWrite p = (.ok ⟨p, .file id, true⟩, (d.tick .access p).2)) ∨
    (d.node? p = none ∧ d.openWrite p =
      (.ok ⟨p, .file d.files.length, true⟩, ((d.tick .access p).2.create p).2)) := by
  have hnode : (d.tick .access p).2.node? p = d.node? p := rfl
  unfold openWrite
  rcases ht : d.tick .access p with ⟨f | f, d'⟩
  · rw [ht] at hnode
    dsimp only at hnode ⊢
    rw [hnode]
    cases d.node? p with
    | none =>
      dsimp only
      split
      · have hfiles : d'.files = d.files := by
          have := (d.sameFiles_tick .access p).2
          rw [ht] at this
          exact this
        exact .inr (.inr ⟨rfl, by rw [← hfiles]; rfl⟩)
      · exact .inl ⟨_, rfl⟩
    | some n =>
      cases n with
      | directory => exact .inl ⟨_, rfl⟩
      | file id => exact .inr (.inl ⟨id, rfl, rfl⟩)
  · exact .inl ⟨f.error, rfl⟩

/-- A new name for a file takes the place of what has the name. -/
theorem rename_cases (d : Disk) (source target : Path) :
    (∃ e, d.rename source target = (.error e, (d.tick .rename source).2)) ∨
    (∃ n, d.node? source = some n ∧ d.rename source target =
      (.ok (), (d.tick .rename source).2.rebind source target n)) := by
  have hnode : (d.tick .rename source).2.node? source = d.node? source := rfl
  unfold rename
  rcases ht : d.tick .rename source with ⟨f | f, d'⟩
  · rw [ht] at hnode
    dsimp only at hnode ⊢
    rw [hnode]
    cases d.node? source with
    | none => exact .inl ⟨_, rfl⟩
    | some n =>
      dsimp only
      split
      · exact .inl ⟨_, rfl⟩
      · split
        · exact .inr ⟨n, rfl, rfl⟩
        · exact .inl ⟨_, rfl⟩
  · exact .inl ⟨f.error, rfl⟩

theorem content_store_ne {d : Disk} {h : Handle} {id : Nat} (hn : h.node ≠ .file id)
    (offset : Nat) (b : Bytes) : (d.store h offset b).content id = d.content id := by
  unfold store
  split
  · rfl
  · rename_i id' hid
    exact content_setContent_ne (fun e => hn (by rw [hid, e])) _

end Disk

theorem temporaryFor_ne (p : Path) : p ≠ temporaryFor p := by
  intro h
  have hlen := congrArg String.length h
  unfold temporaryFor at hlen
  rw [String.length_append] at hlen
  have htmp : ".tmp".length = 4 := by decide
  omega

/-- A file is spared while a save is under way: it has the content that it had,
and neither the temporary name nor the handle of the save leads to it. -/
structure Saving.Spares (s : Saving) (p : Path) (id : Nat) (b : Bytes) : Prop where
  known : id < s.disk.files.length
  content : s.disk.content id = b
  name : s.disk.node? (temporaryFor p) ≠ some (.file id)
  handle : ∀ h, s.handle = some h → h.node ≠ .file id

namespace Saving.Spares

open Disk (SameFiles)

variable {s : Saving} {p : Path} {id : Nat} {b : Bytes} {d : Disk}

theorem of_sameFiles (h : s.Spares p id b) (hs : SameFiles s.disk d) :
    Saving.Spares { s with disk := d } p id b where
  known := by rw [show d.files = _ from hs.2]; exact h.known
  content := by unfold Disk.content; rw [show d.files = _ from hs.2]; exact h.content
  name := by unfold Disk.node?; rw [show d.names = _ from hs.1]; exact h.name
  handle := h.handle

theorem create (h : s.Spares p id b) (new : Bytes) :
    (SaveStep.create.run p new s).2.Spares p id b := by
  have hname := h.name
  simp only [SaveStep.run, Disk.openEmpty]
  rcases s.disk.openWrite_cases (temporaryFor p) with
    ⟨e, hopen⟩ | ⟨old, hold, hopen⟩ | ⟨hnone, hopen⟩
  · rw [hopen]
    exact h.of_sameFiles ⟨rfl, rfl⟩
  · rw [hopen]
    have hne : old ≠ id := fun e => hname (by rw [hold, e])
    refine ⟨?_, ?_, hname, ?_⟩
    · exact Nat.lt_of_lt_of_eq h.known List.length_set.symm
    · exact (Disk.content_setContent_ne hne _).trans h.content
    · rintro x ⟨⟩ hx
      exact hne (Node.file.inj hx)
  · rw [hopen]
    have hne : s.disk.files.length ≠ id := Nat.ne_of_gt h.known
    have hfiles : ((s.disk.tick .access (temporaryFor p)).2.create (temporaryFor p)).2.files =
        s.disk.files ++ [[]] := rfl
    refine ⟨?_, (Disk.content_setContent_ne hne _).trans ?_, ?_, ?_⟩
    · have hknown := h.known
      show id < (List.set _ _ _).length
      rw [List.length_set, hfiles, List.length_append]
      omega
    · unfold Disk.content
      rw [hfiles, List.getD_eq_getElem?_getD, List.getElem?_append_left h.known,
        ← List.getD_eq_getElem?_getD]
      exact h.content
    · show (Disk.bind _ _ _).node? _ ≠ _
      rw [Disk.node?_bind, if_pos rfl]
      exact fun e => hne (Node.file.inj (Option.some.inj e))
    · rintro x ⟨⟩ hx
      exact hne (Node.file.inj hx)

theorem write (h : s.Spares p id b) (new : Bytes) :
    (SaveStep.write.run p new s).2.Spares p id b := by
  simp only [SaveStep.run]
  rcases hh : s.handle with _ | x
  · exact h
  · have hx := h.handle x hh
    dsimp only
    obtain ⟨d₀, hs, hd | ⟨-, n, hd⟩⟩ := s.disk.writeAt_disk x 0 new
    · rw [hd, ← hh]
      exact h.of_sameFiles hs
    · have h₀ := h.of_sameFiles hs
      rw [hd, ← hh]
      refine ⟨?_, ?_, ?_, h.handle⟩
      · rw [Disk.store_length_files]; exact h₀.known
      · rw [Disk.content_store_ne hx]; exact h₀.content
      · unfold Disk.node?
        rw [Disk.store_names]
        exact h₀.name

theorem sync (h : s.Spares p id b) (new : Bytes) :
    (SaveStep.sync.run p new s).2.Spares p id b := by
  simp only [SaveStep.run]
  rcases hh : s.handle with _ | x
  · exact h
  · dsimp only
    rw [← hh]
    exact h.of_sameFiles (s.disk.sameFiles_sync x)

/-- The temporary name is gone after it was given up, or it leads where it led. -/
theorem rename (h : s.Spares p id b) (new : Bytes) :
    (SaveStep.rename.run p new s).2.Spares p id b := by
  simp only [SaveStep.run]
  rcases s.disk.rename_cases (temporaryFor p) p with ⟨e, hren⟩ | ⟨n, hn, hren⟩
  · rw [hren]
    exact h.of_sameFiles ⟨rfl, rfl⟩
  · rw [hren]
    unfold Disk.rebind
    split
    · exact h.of_sameFiles ⟨rfl, rfl⟩
    · refine ⟨h.known, h.content, ?_, h.handle⟩
      rw [Disk.node?_bind, if_neg (Ne.symm (temporaryFor_ne p)), Disk.node?_forget, if_pos rfl]
      exact (nomatch ·)

theorem step (h : s.Spares p id b) (new : Bytes) (step : SaveStep) :
    (step.run p new s).2.Spares p id b := by
  cases step with
  | create => exact h.create new
  | write => exact h.write new
  | sync => exact h.sync new
  | rename => exact h.rename new

theorem steps (new : Bytes) : ∀ (l : List SaveStep) {s : Saving}, s.Spares p id b →
    (Disk.saveSteps p new l s).2.Spares p id b
  | [], _, h => h
  | step :: rest, s, h => by
    have hstep := h.step new step
    unfold Disk.saveSteps
    rcases hr : step.run p new s with ⟨e | u, s'⟩
    · rw [hr] at hstep; exact hstep
    · rw [hr] at hstep; exact steps new rest hstep

end Saving.Spares

/-- A save keeps the file of a handle that is known and shielded, and the
shield. -/
theorem Disk.save_of_shields {d : Disk} {p : Path} {f : LocalFile} (hk : d.Knows f.handle)
    (hs : d.Shields p f.handle) (new : Bytes) :
    (d.save p new).2.Knows f.handle ∧ (d.save p new).2.Shields p f.handle ∧
      f.content (d.save p new).2 = f.content d := by
  unfold Disk.Knows Disk.Shields LocalFile.content at *
  cases hn : f.handle.node with
  | directory =>
    rw [hn] at hk
    exact ⟨hk, fun _ e => (nomatch e), rfl⟩
  | file id =>
    rw [hn] at hk
    have hspares : Saving.Spares ⟨d, none⟩ p id (d.content id) :=
      ⟨hk, rfl, hs id hn, fun _ e => (nomatch e)⟩
    have hend := hspares.steps new SaveStep.all
    refine ⟨hend.known, ?_, hend.content⟩
    rintro id' ⟨⟩
    exact hend.name

end VerifiedCopy
