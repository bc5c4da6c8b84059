/-
# Sites on which nothing fails

A site is able if the local file is open for writing, no operation on it fails by
itself, and a sidecar can be saved at any time without touching it (`Site.Able`).
Then reading inside the file gives the bytes that are there, writing puts all bytes
in their place, and saving the ledger succeeds; and each of them leaves the site able.
The site is sturdy if the local file has the length of the content as well
(`Site.Sturdy`), and work on the content leaves it so.

Key definitions: `Site.Able`, `Site.Sturdy`.
Key theorems: `Able.readRange`, `Able.writeDurable`, `Able.persist`, `Sturdy.readRange`,
`Sturdy.writeDurable`, `Sturdy.persist`.
-/
import VerifiedCopy.Proofs.Saving
import VerifiedCopy.Proofs.Steps

namespace VerifiedCopy
namespace Site

variable {σ : Type} {file : LocalFile} {n : Nat} {s : Site σ}

/-- The local file holds `n` bytes and can be read and written, and the ledger can be
saved without touching it. -/
structure Sturdy (file : LocalFile) (n : Nat) (s : Site σ) : Prop extends Ready file s where
  writable : file.handle.writable = true
  fair : ∀ clock op, s.disk.weather clock op file.path = none
  length : (file.content s.disk).length = n
  room : n < Disk.maxOffset
  clear : ∀ p, s.ledger.path = some p → s.disk.Clear p

/-- The local file can be read and written up to position `n`, however long it is, and
the ledger can be saved without touching it. -/
structure Able (file : LocalFile) (n : Nat) (s : Site σ) : Prop extends Ready file s where
  writable : file.handle.writable = true
  fair : ∀ clock op, s.disk.weather clock op file.path = none
  room : n < Disk.maxOffset
  clear : ∀ p, s.ledger.path = some p → s.disk.Clear p

theorem Sturdy.able (h : Sturdy file n s) : Able file n s where
  toReady := h.toReady
  writable := h.writable
  fair := h.fair
  room := h.room
  clear := h.clear

namespace Able

theorem sturdy (h : Able file n s) (hlen : (file.content s.disk).length = n) :
    Sturdy file n s where
  toReady := h.toReady
  writable := h.writable
  fair := h.fair
  length := hlen
  room := h.room
  clear := h.clear

theorem of_ledger {g : Ledger} (h : Able file n s) (hp : g.path = s.ledger.path) :
    Able file n { s with ledger := g } where
  toReady := h.toReady.of_ledger hp
  writable := h.writable
  fair := h.fair
  room := h.room
  clear p hq := h.clear p (hp.symm.trans hq)

theorem of_source {x : σ} (h : Able file n s) : Able file n { s with source := x } where
  known := h.known
  shielded := h.shielded
  writable := h.writable
  fair := h.fair
  room := h.room
  clear := h.clear

/-- Work on the local file. -/
theorem of_touches {d : Disk} (h : Able file n s) (hd : file.Touches s.disk d) :
    Able file n { s with disk := d } := by
  obtain ⟨id, hn, -⟩ := h.known.exists_file h.writable
  have hchanges := hd.changes id hn
  have hnode : ∀ q, d.node? q = s.disk.node? q := by
    intro q
    unfold Disk.node?
    rw [hd.names]
  exact {
    known := h.known.of_length hchanges.grows
    shielded := fun p hp id' hid' => by
      rw [hnode]
      exact h.shielded p hp id' hid'
    writable := h.writable
    fair := fun clock op => by
      rw [hchanges.weather]
      exact h.fair clock op
    room := h.room
    clear := fun p hp => (h.clear p hp).of_changes hchanges hd.names }

theorem tick (h : Able file n s) (op : FileOp) {d : Disk} (hd : d.weather = s.disk.weather) :
    d.tick op file.handle.path = (none, { d with clock := d.clock + 1 }) := by
  have hfair : d.weather d.clock op file.handle.path = none := by
    rw [hd]
    exact h.fair _ _
  unfold Disk.tick
  rw [hfair]

/-- A range inside the file is read. -/
theorem readRange (h : Able file n s) {r : ByteRange} (hr : r.stop ≤ n)
    (hin : r.stop ≤ (file.content s.disk).length) : ∃ d,
    file.readRange r s.disk = (.ok ((file.content s.disk).slice r.start r.size), d) ∧
      Able file n { s with disk := d } ∧ file.content d = file.content s.disk := by
  have htouches := file.touches_readRange r s.disk
  have hsame := (sameFiles_readRange file r s.disk).content_eq file
  have hok : (file.readRange r s.disk).1 =
      .ok ((file.content s.disk).slice r.start r.size) := by
    obtain ⟨id, hn, -⟩ := h.known.exists_file h.writable
    have hle := r.start_le_stop
    have hroom := h.room
    have hlen : ((file.content s.disk).slice r.start r.size).length = r.size := by
      rw [Bytes.length_slice]
      unfold ByteRange.size
      omega
    unfold LocalFile.readRange LocalFile.readAt Disk.readAt
    by_cases hsize : r.size = 0
    · rw [if_pos hsize, hsize, Bytes.slice_zero]
      rfl
    · have hinside : ¬ Disk.maxOffset ≤ r.start + r.size := by
        unfold ByteRange.size
        omega
      rw [if_neg hsize, h.tick .read rfl]
      unfold Disk.bytesAt
      dsimp only
      rw [if_neg hinside, hn]
      rw [LocalFile.content_of_node hn] at hlen ⊢
      exact congrArg (Except.mapError _) (if_pos hlen)
  exact ⟨(file.readRange r s.disk).2, by rw [← hok], h.of_touches htouches, hsame⟩

/-- Some bytes are written. -/
theorem writeDurable (h : Able file n s) {offset : Nat} {b : Bytes} (hb : b ≠ [])
    (hin : offset + b.length ≤ n) : ∃ d,
    file.writeDurable offset b s.disk = (.ok (), d) ∧ Able file n { s with disk := d } ∧
      file.content d = (file.content s.disk).overlay offset b := by
  have htouches := file.touches_writeDurable offset b s.disk
  have hok : (file.writeDurable offset b s.disk).1 = .ok () := by
    obtain ⟨id, hn, -⟩ := h.known.exists_file h.writable
    have hroom := h.room
    have hinside : ¬ Disk.maxOffset ≤ offset + b.length := by omega
    have hstored : (({ s.disk with clock := s.disk.clock + 1 } : Disk).store file.handle offset
        b).weather = s.disk.weather := (Disk.changes_store hn _ offset b).weather
    unfold LocalFile.writeDurable Disk.writeAt
    rw [if_neg hb, h.tick .write rfl]
    dsimp only
    rw [h.writable, if_neg (by decide), if_neg hinside]
    unfold Disk.sync
    dsimp only
    rw [h.tick .sync hstored]
    rfl
  have hcontent := LocalFile.content_writeDurable_of_ok h.known hb hok
  exact ⟨(file.writeDurable offset b s.disk).2, by rw [← hok], h.of_touches htouches, hcontent⟩

/-- The ledger is saved. -/
theorem persist (h : Able file n s) (hcount : s.ledger.chunkCount < UInt32.size) : ∃ d,
    s.persist = (.ok (), { s with disk := d }) ∧ Able file n { s with disk := d } ∧
      file.content d = file.content s.disk := by
  obtain ⟨hready, hcontent⟩ := h.toReady.persist
  unfold Site.persist Ledger.persist at hready hcontent ⊢
  cases hp : s.ledger.path with
  | none => exact ⟨s.disk, rfl, h, rfl⟩
  | some p =>
    rw [hp] at hready hcontent
    have hclear := h.clear p hp
    obtain ⟨hok, id, hsaved⟩ := Disk.save_of_clear hclear (Ledger.length_snapshot_lt hcount)
    refine ⟨(s.disk.save p s.ledger.snapshot).2, ?_, ?_, hcontent⟩
    · dsimp only
      rw [← hok]
    · exact {
        toReady := hready
        writable := h.writable
        fair := fun clock op => by
          rw [hsaved.changes.weather]
          exact h.fair clock op
        room := h.room
        clear := fun q hq => by
          obtain rfl : p = q := Option.some.inj (hp.symm.trans hq)
          exact hsaved.clear hclear }

end Able

namespace Sturdy

theorem of_ledger {g : Ledger} (h : Sturdy file n s) (hp : g.path = s.ledger.path) :
    Sturdy file n { s with ledger := g } :=
  (h.able.of_ledger hp).sturdy h.length

theorem of_source {x : σ} (h : Sturdy file n s) : Sturdy file n { s with source := x } :=
  h.able.of_source.sturdy h.length

/-- A range inside the file is read. -/
theorem readRange (h : Sturdy file n s) {r : ByteRange} (hr : r.stop ≤ n) : ∃ d,
    file.readRange r s.disk = (.ok ((file.content s.disk).slice r.start r.size), d) ∧
      Sturdy file n { s with disk := d } ∧ file.content d = file.content s.disk := by
  obtain ⟨d, hread, hable, hcontent⟩ := h.able.readRange hr (h.length.symm ▸ hr)
  exact ⟨d, hread, hable.sturdy (hcontent ▸ h.length), hcontent⟩

/-- Some bytes are written inside the file. -/
theorem writeDurable (h : Sturdy file n s) {offset : Nat} {b : Bytes} (hb : b ≠ [])
    (hin : offset + b.length ≤ n) : ∃ d,
    file.writeDurable offset b s.disk = (.ok (), d) ∧ Sturdy file n { s with disk := d } ∧
      file.content d = (file.content s.disk).overlay offset b := by
  obtain ⟨d, hwrite, hable, hcontent⟩ := h.able.writeDurable hb hin
  have hlen : (file.content d).length = n := by
    rw [hcontent, Bytes.length_overlay_of_le _ _ _ (by rw [h.length]; exact hin), h.length]
  exact ⟨d, hwrite, hable.sturdy hlen, hcontent⟩

/-- The ledger is saved. -/
theorem persist (h : Sturdy file n s) (hcount : s.ledger.chunkCount < UInt32.size) : ∃ d,
    s.persist = (.ok (), { s with disk := d }) ∧ Sturdy file n { s with disk := d } ∧
      file.content d = file.content s.disk := by
  obtain ⟨d, hpersist, hable, hcontent⟩ := h.able.persist hcount
  exact ⟨d, hpersist, hable.sturdy (hcontent ▸ h.length), hcontent⟩

end Sturdy
end Site
end VerifiedCopy
