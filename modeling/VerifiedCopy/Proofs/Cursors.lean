/-
# Cursors are cursors over the content

A cursor over bytes in memory takes the next bytes from its position and moves past them, or
is moved to any place that is a 64-bit number (`MemoryCursor`). If the source has the content,
nothing is verified or in flight yet and nothing fails, then a cursor of a reader, with any
settings, answers every sequence of reads and seeks as a cursor over the content does
(`cursor_refines`). This needs that saving the ledger does not touch the local file
(`cursor_not_refines`).

A read or a seek that fails leaves the position alone, whatever the source and the site.

Key definitions: `MemoryCursor`, `Cursor.replies`, `Cursor.Tracks`.
Key theorems: `read_tracks`, `replies_tracks`, `cursor_refines`, `cursor_not_refines`.
-/
import VerifiedCopy.Proofs.Exactness
import VerifiedCopy.Proofs.Steady.Reading

namespace VerifiedCopy

/-! ### Cursors over bytes in memory -/

/-- Some bytes and a position. -/
structure MemoryCursor where
  content : Bytes
  position : Nat := 0

namespace MemoryCursor

/-- Take the next bytes, at most `n`, and move past them. -/
def read (m : MemoryCursor) (n : Nat) : Bytes × MemoryCursor :=
  let b := (m.content.drop m.position).take n
  (b, { m with position := m.position + b.length })

/-- The place that a seek leads to. -/
def target (m : MemoryCursor) : SeekFrom → Int
  | .start offset => offset
  | .ending delta => m.content.length + delta
  | .current delta => m.position + delta

/-- Move to a place, unless it is before the start or no 64-bit number. -/
def seek (m : MemoryCursor) (place : SeekFrom) : Except CursorError Nat × MemoryCursor :=
  if 0 ≤ m.target place ∧ m.target place < UInt64.size then
    (.ok (m.target place).toNat, { m with position := (m.target place).toNat })
  else (.error .badSeek, m)

/-- There are as many next bytes as were asked for, or as there are up to the end. -/
theorem length_read (m : MemoryCursor) (n : Nat) :
    (m.read n).1.length = min n (m.content.length - m.position) := by
  unfold read
  rw [List.length_take, List.length_drop]

/-- They are a piece of the content. -/
theorem slice_read (m : MemoryCursor) (n : Nat) :
    m.content.slice m.position (m.read n).1.length = (m.read n).1 := by
  unfold read Bytes.slice
  dsimp only
  rw [List.length_take, ← List.take_eq_take_min]

end MemoryCursor

/-- A call of a cursor. -/
inductive CursorCall where
  | read (n : Nat)
  | seek (place : SeekFrom)
deriving DecidableEq

/-- What a call of a cursor gives. -/
inductive CursorReply where
  | bytes (b : Bytes)
  | place (position : Nat)
deriving DecidableEq

/-- One call of a cursor over bytes in memory. -/
def MemoryCursor.reply (m : MemoryCursor) :
    CursorCall → Except CursorError CursorReply × MemoryCursor
  | .read n => (.ok (.bytes (m.read n).1), (m.read n).2)
  | .seek place => ((m.seek place).1.map .place, (m.seek place).2)

/-- What the calls give, one after the other, and the position after each of them. -/
def MemoryCursor.replies : List CursorCall → MemoryCursor →
    List (Except CursorError CursorReply × Nat)
  | [], _ => []
  | call :: rest, m =>
    ((m.reply call).1, (m.reply call).2.position) :: replies rest (m.reply call).2

namespace Cursor

open Reader (Answered Placed)
open Site (Able Honest)

variable {σ : Type} [RangeSource σ] {t : Tree} {file : LocalFile} {f₀ : Fetcher} {D : Bytes}
  {k : UInt32} {c : Cursor} {m : MemoryCursor} {s : Site σ}

/-- One call of a cursor. -/
def reply (c : Cursor) (s : Site σ) :
    CursorCall → Except CursorError CursorReply × Cursor × Site σ
  | .read n => ((c.read n s).1.map .bytes, (c.read n s).2)
  | .seek place => ((c.seek place).1.map .place, (c.seek place).2, s)

/-- What the calls give, one after the other, and the position after each of them. -/
def replies : List CursorCall → Cursor → Site σ → List (Except CursorError CursorReply × Nat)
  | [], _, _ => []
  | call :: rest, c, s =>
    let x := c.reply s call
    (x.1, x.2.1.position) :: replies rest x.2.1 x.2.2

/-! ### Following the cursor over the content -/

/-- A cursor at the position of a cursor over the content, whose reader is at its place where all of
the content is promised. -/
structure Tracks (t : Tree) (file : LocalFile) (D : Bytes) (f₀ : Fetcher) (c : Cursor)
    (m : MemoryCursor) (s : Site σ) : Prop where
  placed : ∃ promised, Placed t file (fun r => .ok (D.slice r.start r.size)) (fun _ _ => .ok ()) f₀
    promised c.reader s ∧ ∀ i < t.leafCount, promised i = .ok (t.layout.cut D i)
  content : m.content = D
  position : m.position = c.position

theorem Tracks.size (h : Tracks t file D f₀ c m s) (hf₀ : f₀.Serves t file)
    (hD : D.length = t.layout.totalSize) : c.reader.size = m.content.length := by
  obtain ⟨promised, hplaced, -⟩ := h.placed
  have hf := hplaced.twin.serves_iff.2 hf₀
  rw [h.content, hD]
  exact congrArg Layout.totalSize hf.layout_eq

/-- A reader gives out the content where all of it is promised. -/
theorem read_content {promised : Nat → Except Error Bytes} {range : ByteRange}
    {res : Except Error Bytes} (hp : ∀ i < t.leafCount, promised i = .ok (t.layout.cut D i))
    (hinside : range.stop ≤ t.layout.totalSize) (h : Answered t promised range res) :
    res = .ok (D.slice range.start range.size) :=
  h.unique (.given hinside fun i hi => hp i (Layout.lt_of_mem_overlapping hi))

/-- A read takes the next bytes of the content. -/
theorem read_tracks (hD : D.length = t.layout.totalSize) (hf₀ : f₀.Serves t file)
    (h : Tracks t file D f₀ c m s) (n : Nat) :
    (c.read n s).1 = .ok (m.read n).1 ∧
      Tracks t file D f₀ (c.read n s).2.1 (m.read n).2 (c.read n s).2.2 := by
  have hlength := m.length_read n
  have havailable : c.available n = (m.read n).1.length := by
    rw [hlength, h.position, ← h.size hf₀ hD]
    rfl
  obtain ⟨promised, hplaced, hpromised⟩ := h.placed
  unfold read
  rw [havailable]
  dsimp only
  by_cases hzero : (m.read n).1.length = 0
  · -- Nothing is left, or nothing was asked for.
    rw [if_pos hzero]
    refine ⟨congrArg Except.ok (List.eq_nil_of_length_eq_zero hzero).symm, ⟨_, hplaced, hpromised⟩,
      h.content, ?_⟩
    show m.position + (m.read n).1.length = c.position
    rw [hzero, h.position, Nat.add_zero]
  · rw [if_neg hzero]
    have hin : c.position + (m.read n).1.length ≤ t.layout.totalSize := by
      rw [← hD, ← h.content, ← h.position]
      omega
    have hlimit : c.position + (m.read n).1.length < ByteRange.limit :=
      Nat.lt_of_le_of_lt hin t.layout.totalSize_lt
    have hrange : ByteRange.ofLength c.position (m.read n).1.length =
        .ok ⟨c.position, c.position + (m.read n).1.length, Nat.le_add_right _ _⟩ := by
      unfold ByteRange.ofLength
      rw [if_pos hlimit]
    rw [hrange]
    dsimp only
    obtain ⟨hanswered, hplaced'⟩ := Reader.read_steady hf₀ hplaced
      ⟨c.position, c.position + (m.read n).1.length, Nat.le_add_right _ _⟩
    have hres := read_content hpromised hin hanswered
    have hbytes : D.slice c.position (c.position + (m.read n).1.length - c.position) =
        (m.read n).1 := by
      rw [Nat.add_sub_cancel_left, ← h.content, ← h.position]
      exact m.slice_read n
    rcases hr : c.reader.read
      ⟨c.position, c.position + (m.read n).1.length, Nat.le_add_right _ _⟩ s with ⟨e | b, r', s'⟩
    · rw [hr] at hres
      cases hres
    · rw [hr] at hres hplaced'
      refine ⟨congrArg Except.ok ((Except.ok.inj hres).trans hbytes), ⟨_, hplaced', hpromised⟩,
        h.content, ?_⟩
      show m.position + (m.read n).1.length = c.position + (m.read n).1.length
      rw [h.position]

omit [RangeSource σ] in
theorem target_eq (hsize : c.reader.size = m.content.length) (hposition : m.position = c.position)
    (place : SeekFrom) : c.target place = m.target place := by
  cases place with
  | start offset => rfl
  | ending delta => exact congrArg (fun n : Nat => (n : Int) + delta) hsize
  | current delta => exact congrArg (fun n : Nat => (n : Int) + delta) hposition.symm

/-- A seek leads to the same place. -/
theorem seek_tracks (hD : D.length = t.layout.totalSize) (hf₀ : f₀.Serves t file)
    (h : Tracks t file D f₀ c m s) (place : SeekFrom) :
    (c.seek place).1 = (m.seek place).1 ∧
      Tracks t file D f₀ (c.seek place).2 (m.seek place).2 s := by
  have htarget := target_eq (h.size hf₀ hD) h.position place
  unfold seek MemoryCursor.seek
  rw [htarget]
  dsimp only
  by_cases hgood : 0 ≤ m.target place ∧ m.target place < UInt64.size
  · rw [if_pos hgood, if_pos (show _ ∧ m.target place < ByteRange.limit from hgood)]
    exact ⟨rfl, h.placed, h.content, rfl⟩
  · rw [if_neg hgood, if_neg (show ¬ (_ ∧ m.target place < ByteRange.limit) from hgood)]
    exact ⟨rfl, h⟩

/-- The calls give the same, one after the other. -/
theorem replies_tracks (hD : D.length = t.layout.totalSize) (hf₀ : f₀.Serves t file)
    (calls : List CursorCall) (h : Tracks t file D f₀ c m s) :
    c.replies calls s = m.replies calls := by
  induction calls generalizing c m s with
  | nil => rfl
  | cons call rest ih =>
    have hcall : (c.reply s call).1 = (m.reply call).1 ∧
        Tracks t file D f₀ (c.reply s call).2.1 (m.reply call).2 (c.reply s call).2.2 := by
      cases call with
      | read n =>
        obtain ⟨hres, htracks⟩ := read_tracks hD hf₀ h n
        exact ⟨congrArg (Except.map CursorReply.bytes) hres, htracks⟩
      | seek place =>
        obtain ⟨hres, htracks⟩ := seek_tracks hD hf₀ h place
        exact ⟨congrArg (Except.map CursorReply.place) hres, htracks⟩
    obtain ⟨hres, htracks⟩ := hcall
    unfold replies MemoryCursor.replies
    dsimp only
    rw [hres, htracks.position, ih htracks]

/-! ### What fails, and what does not -/

theorem position_of_read_error {n : Nat} {e : CursorError} (h : (c.read n s).1 = .error e) :
    (c.read n s).2.1.position = c.position := by
  unfold read at h ⊢
  dsimp only at h ⊢
  by_cases hzero : c.available n = 0
  · rw [if_pos hzero] at h
    cases h
  · rw [if_neg hzero] at h ⊢
    cases hrange : ByteRange.ofLength c.position (c.available n) with
    | error e => rfl
    | ok range =>
      rw [hrange] at h
      dsimp only at h ⊢
      rcases hr : c.reader.read range s with ⟨e' | b, r', s'⟩
      · rfl
      · rw [hr] at h
        cases h

omit [RangeSource σ] in
theorem position_of_seek_error {place : SeekFrom} {e : CursorError}
    (h : (c.seek place).1 = .error e) : (c.seek place).2.position = c.position := by
  unfold seek at h ⊢
  dsimp only at h ⊢
  split at h
  · cases h
  · rename_i hbad
    rw [if_neg hbad]

/-- **A cursor is a cursor over the content.** Let the tree be that of some content, let no chunk be
verified or in flight, let the source have the content, and let nothing fail, however long the local
file is by now. Then a cursor of any reader answers every sequence of reads and seeks as a cursor
over the content in memory does: with the same bytes, the same failures and the same positions. This
needs that saving the ledger does not touch the local file. And a read or a seek that fails leaves
the position alone, for any source and on any site. -/
theorem cursor_refines (ht : Tree.ofContent D k = .ok t) {entry : Entry} {transfer : TransferConfig}
    {config : ReaderConfig} {r : Reader}
    (hr : Reader.create entry t s.ledger file transfer config = .ok r)
    (hs : s.Able file D.length) (hhonest : s.Honest t file D)
    (hnew : ∀ i, s.ledger.state i ≠ .verified) (hidle : s.ledger.inFlight = [])
    (calls : List CursorCall) :
    ({ reader := r } : Cursor).replies calls s =
        ({ content := D } : MemoryCursor).replies calls ∧
      ∀ (τ : Type) [RangeSource τ] (c : Cursor) (x : Site τ),
        (∀ n e, (c.read n x).1 = .error e → (c.read n x).2.1.position = c.position) ∧
        ∀ place e, (c.seek place).1 = .error e → (c.seek place).2.position = c.position := by
  have hD := Tree.length_of_content ht
  obtain ⟨rfl, hcount⟩ := Reader.eq_of_create hr
  have hserves : ({ tree := t, localFile := file, config := transfer } : Fetcher).Serves t file :=
    ⟨rfl, rfl⟩
  have hstart : Tracks t file D { tree := t, localFile := file, config := transfer }
      { reader := { fetcher := { tree := t, localFile := file, config := transfer }, config } }
      { content := D } s := {
    placed := ⟨_, {
      toCalm := ⟨hs.toReady, hidle⟩
      steady := (hD ▸ hs).steady hcount hD hhonest
      count := hcount
      covered := fun i hi => absurd hi (hnew i)
      twin := .refl _
      wary := .inl fun i _ hv => absurd hv (hnew i)
      promises := ⟨fun i hi => absurd hi.1 (hnew i), fun _ _ => rfl⟩ },
      fun i hi => Fetcher.forecast_content ht hserves hi⟩
    content := rfl
    position := rfl }
  exact ⟨replies_tracks hD hserves calls hstart, fun τ _ c x =>
    ⟨fun _ _ h => position_of_read_error h, fun _ _ h => position_of_seek_error h⟩⟩

/-- Reads and seeks in the letters, one of them to a place before the start. -/
def someCalls : List CursorCall :=
  [.read 3, .seek (.ending (-2)), .read 9, .read 1, .seek (.current (-9)), .seek (.start 20),
    .read 1]

theorem cursor_refines_letters :
    ({ reader := Reader.plainReader "d" } : Cursor).replies someCalls
      (Reader.unread "d" (Ledger.empty 1)) =
        [(.ok (.bytes [97, 98, 99]), 3), (.ok (.place 6), 6), (.ok (.bytes [103, 104]), 8),
          (.ok (.bytes []), 8), (.error .badSeek, 8), (.ok (.place 20), 20),
          (.ok (.bytes []), 20)] := by
  obtain ⟨hreplies, -⟩ := cursor_refines Reader.tree_of_letters
    (Reader.create_plainReader "d" rfl) (Reader.unread_sturdy "d" rfl).able
    (Reader.honest_of_plain rfl) (Ledger.state_empty_ne_verified 1) rfl someCalls
  exact hreplies.trans rfl

/-- Without the proviso a cursor may give the head of the sidecar for the content, although every
operation on files succeeds. -/
theorem cursor_not_refines :
    ¬ ∀ (D : Bytes) (k : UInt32) (t : Tree) (file : LocalFile) (entry : Entry)
      (transfer : TransferConfig) (config : ReaderConfig) (r : Reader)
      (s : Site (Logged ScriptedSource)) (calls : List CursorCall),
      Tree.ofContent D k = .ok t → Reader.create entry t s.ledger file transfer config = .ok r →
      s.disk.Fair → s.disk.Knows file.handle → file.handle.writable = true →
      D.length < Disk.maxOffset → (∀ p, s.ledger.path = some p → s.disk.Clear p) →
      s.Honest t file D →
      (∀ i, s.ledger.state i ≠ .verified) → s.ledger.inFlight = [] →
      ({ reader := r } : Cursor).replies calls s =
        ({ content := D } : MemoryCursor).replies calls := by
  intro h
  have hreplies := h Session.letters 8 Session.lettersTree (Session.localCopy "s.tmp") _ _ _
    (Reader.plainReader "s.tmp") Reader.aliased [.read 8] Reader.tree_of_letters
    (Reader.create_plainReader "s.tmp" rfl) (fun _ _ _ => rfl) Nat.zero_lt_one rfl (by decide)
    (fun _ => Reader.aliased_clear) (Reader.honest_of_plain rfl)
    (Ledger.state_empty_ne_verified 1) rfl
  have hwrong : (({ reader := Reader.plainReader "s.tmp" } : Cursor).replies [.read 8]
      Reader.aliased).map (·.1.toOption) = [some (.bytes (Bytes.ofText Ledger.magic))] := by
    decide +kernel
  rw [hreplies] at hwrong
  exact absurd hwrong (by decide +kernel)

end Cursor
end VerifiedCopy
