/-
# Sources of the same content answer alike

A file and a web server that hold the same content answer a request for a range alike:
with the bytes of the range if the content has all of them, and else with the number of
those that it has (`ByteRange.answerFrom`). For the server it makes no difference whether
it sends the range or the whole file, as long as a range that it sends starts inside of
the file or at its end. Whatever else a server sends, what is taken for the bytes of a
range has the length of the range.

A file has no positions from `Disk.maxOffset` on, and the system refuses to read there:
such a range is not short but an invalid argument (`sources_disagree`). A range for which there
can be no buffer is not even read.

Key definitions: `ByteRange.heldIn`, `ByteRange.answerFrom`.
Key theorems: `FileSource.readInto_eq`, `FileSource.readInto_past`, `Http.rangeOf_full`,
`Http.rangeOf_partial`, `Http.length_of_rangeOf`, `sources_agree`.
-/
import Mathlib.Order.Interval.Finset.Nat
import VerifiedCopy.Http
import VerifiedCopy.Proofs.Bytes
import VerifiedCopy.Proofs.Layout
import VerifiedCopy.Proofs.Session

namespace VerifiedCopy

variable {r : ByteRange} {C : Bytes} {limit : Duration}

namespace ByteRange

/-- The number of positions of a range at which some content has a byte. -/
def heldIn (r : ByteRange) (C : Bytes) : Nat :=
  ((Finset.range C.length).filter fun k => r.contains k = true).card

theorem heldIn_eq (r : ByteRange) (C : Bytes) : r.heldIn C = min r.stop C.length - r.start := by
  have hset : (Finset.range C.length).filter (fun k => r.contains k = true) =
      Finset.Ico r.start (min r.stop C.length) := by
    ext k
    rw [Finset.mem_filter, Finset.mem_range, contains_iff, Finset.mem_Ico]
    omega
  rw [heldIn, hset, Nat.card_Ico]

/-- What there is to say about a range of some content: its bytes, if the content has all
of them, and else how many of them it has. -/
def answerFrom (r : ByteRange) (C : Bytes) : Except FetchError Bytes :=
  if r.isEmpty then .ok []
  else if r.stop ≤ C.length then .ok (C.slice r.start r.size)
  else .error (.shortRead r.size (r.heldIn C))

theorem answerFrom_of_empty (h : r.isEmpty = true) : r.answerFrom C = .ok [] := if_pos h

theorem answerFrom_of_le (h : r.stop ≤ C.length) :
    r.answerFrom C = .ok (C.slice r.start r.size) := by
  unfold answerFrom
  split
  · rename_i hempty
    rw [isEmpty_iff.1 hempty, Bytes.slice_zero]
  · rfl

theorem answerFrom_of_lt (hne : r.isEmpty = false) (h : C.length < r.stop) :
    r.answerFrom C = .error (.shortRead r.size (C.length - r.start)) := by
  unfold answerFrom
  rw [hne, if_neg Bool.false_ne_true, if_neg (Nat.not_le_of_lt h), heldIn_eq,
    Nat.min_eq_right (Nat.le_of_lt h)]

/-- A slice has all bytes of a range if the content has. -/
theorem length_slice_eq_iff (hne : r.isEmpty = false) :
    (C.slice r.start r.size).length = r.size ↔ r.stop ≤ C.length := by
  have hpos := size_ne_zero hne
  have hsize := r.size_eq
  rw [Bytes.length_slice]
  omega

end ByteRange

open ByteRange

/-! ### A file -/

namespace FileSource

variable {f : FileSource} {d : Disk} {id : Nat}

/-- What is read of a range that is not empty, if the weather does not interfere. -/
theorem readInto_of_fair (hfair : d.weather d.clock .read f.handle.path = none)
    (hne : r.isEmpty = false) :
    f.readInto d r = match d.bytesAt f.handle r.start r.size with
      | .ok b => .ok b
      | .error .endOfFile =>
        .error (.shortRead r.size (min (d.sizeOf f.handle - r.start) r.size))
      | .error e => .error (.io s!"{f.handle.path}: {e.message}") := by
  unfold readInto Disk.readAt Disk.tick
  rw [if_neg (size_ne_zero hne), hfair]
  rfl

/-- Where a file can have positions, what is read is what its content says. -/
theorem readInto_eq (hnode : f.handle.node = .file id) (hC : d.content id = C)
    (hfair : d.weather d.clock .read f.handle.path = none)
    (hr : r.isEmpty = true ∨ r.stop < Disk.maxOffset) : f.readInto d r = r.answerFrom C := by
  cases hempty : r.isEmpty with
  | true =>
    rw [answerFrom_of_empty hempty]
    unfold readInto Disk.readAt
    rw [if_pos (isEmpty_iff.1 hempty)]
  | false =>
    have hstop : ¬ Disk.maxOffset ≤ r.start + r.size := by
      rw [r.size_eq]
      rcases hr with h | h
      · cases hempty.symm.trans h
      · exact Nat.not_le_of_lt h
    rw [readInto_of_fair hfair hempty]
    unfold Disk.bytesAt Disk.sizeOf
    rw [if_neg hstop, hnode]
    dsimp only
    rw [hC]
    rcases Nat.lt_or_ge C.length r.stop with hlt | hle
    · -- The end of the file tells how much there is, which is less than was asked for.
      have hshort : ¬ (C.slice r.start r.size).length = r.size := fun h =>
        Nat.not_le_of_lt hlt ((length_slice_eq_iff hempty).1 h)
      have hgot : min (C.length - r.start) r.size = C.length - r.start := by
        have hsize := r.size_eq
        omega
      rw [if_neg hshort, answerFrom_of_lt hempty hlt]
      exact congrArg (fun n => Except.error (FetchError.shortRead r.size n)) hgot
    · rw [if_pos ((length_slice_eq_iff hempty).2 hle), answerFrom_of_le hle]

/-- Where no file has positions, the system refuses to read. -/
theorem readInto_past (hfair : d.weather d.clock .read f.handle.path = none)
    (hne : r.isEmpty = false) (hr : Disk.maxOffset ≤ r.stop) :
    f.readInto d r =
      .error (.io s!"{f.handle.path}: {IoError.invalidArgument.message}") := by
  rw [← r.size_eq] at hr
  rw [readInto_of_fair hfair hne]
  unfold Disk.bytesAt
  rw [if_pos hr]

theorem length_of_readInto {b : Bytes} (h : f.readInto d r = .ok b) : b.length = r.size := by
  unfold readInto at h
  split at h
  · rename_i b' hread
    cases h
    by_cases hsize : r.size = 0
    · unfold Disk.readAt at hread
      rw [if_pos hsize] at hread
      cases hread
      exact hsize.symm
    · obtain ⟨-, -, -, hlen⟩ := Disk.readAt_eq_ok hread hsize
      exact hlen
  · cases h
  · cases h

/-- A range that a file can have is not too large for a buffer. -/
theorem size_le_maxBuffer (hr : r.isEmpty = true ∨ r.stop < Disk.maxOffset) :
    r.size ≤ maxBuffer := by
  have hsize := r.size_eq
  have hlimits : Disk.maxOffset = maxBuffer + 1 := rfl
  rcases hr with hempty | hstop
  · rw [isEmpty_iff.1 hempty]
    exact Nat.zero_le _
  · omega

theorem answer?_of_le (h : r.size ≤ maxBuffer) : f.answer? d r = some (f.readInto d r) := if_pos h

theorem answer?_of_gt (h : maxBuffer < r.size) : f.answer? d r = none :=
  if_neg (Nat.not_le_of_lt h)

theorem answer_of_answer? {a : Except FetchError Bytes} (h : f.answer? d r = some a) :
    f.answer d r = a := by
  unfold answer
  rw [h]
  rfl

theorem length_of_answer {b : Bytes} (h : f.answer d r = .ok b) : b.length = r.size := by
  rcases Nat.lt_or_ge maxBuffer r.size with hgt | hle
  · unfold answer at h
    rw [answer?_of_gt hgt] at h
    cases h
  · exact length_of_readInto ((answer_of_answer? (answer?_of_le hle)).symm.trans h)

end FileSource

/-! ### A web server -/

namespace Http

variable {n : Option Nat}

/-- A server that ignores the range and sends the whole file. -/
theorem rangeOf_full (hne : r.isEmpty = false) :
    rangeOf limit r (.ok ⟨200, n, .ok C⟩) = r.answerFrom C := by
  have hcut : rangeOf limit r (.ok ⟨200, n, .ok C⟩) = cut r true C := rfl
  rw [hcut]
  unfold cut
  rw [if_pos rfl]
  rcases Nat.lt_or_ge C.length r.stop with hlt | hle
  · rw [if_pos hlt, answerFrom_of_lt hne hlt]
  · rw [if_neg (Nat.not_lt_of_le hle), answerFrom_of_le hle]

/-- The bytes that a server sends which has the content: those of the range that there
are. -/
def sent (r : ByteRange) (C : Bytes) : Bytes :=
  C.slice r.start (min r.stop C.length - r.start)

theorem length_sent : (sent r C).length = min r.stop C.length - r.start := by
  rw [sent, Bytes.length_slice]
  omega

/-- A server that sends the range. -/
theorem rangeOf_partial (hne : r.isEmpty = false) (hr : r.start ≤ C.length) :
    rangeOf limit r (.ok ⟨206, n, .ok (sent r C)⟩) = r.answerFrom C := by
  have hcut : rangeOf limit r (.ok ⟨206, n, .ok (sent r C)⟩) = cut r false (sent r C) := rfl
  have hsize := r.size_eq
  rw [hcut]
  unfold cut
  rw [if_neg Bool.false_ne_true, length_sent]
  rcases Nat.lt_or_ge C.length r.stop with hlt | hle
  · rw [Nat.min_eq_right (Nat.le_of_lt hlt), if_neg (by omega), answerFrom_of_lt hne hlt]
  · have hlen : r.stop - r.start = r.size := rfl
    rw [Nat.min_eq_left hle, if_pos hlen, answerFrom_of_le hle, sent, Nat.min_eq_left hle, hlen]

/-- Whatever is sent, what is taken for the bytes of a range has its length. -/
theorem length_of_rangeOf {reply : Reply} {b : Bytes} (h : rangeOf limit r reply = .ok b) :
    b.length = r.size := by
  unfold rangeOf at h
  split at h
  · cases h
  · split at h
    · split at h
      · cases h
      · unfold cut at h
        split at h
        · split at h
          · cases h
          · rename_i hstop
            cases h
            have hsize := r.size_eq
            rw [Bytes.length_slice]
            omega
        · split at h
          · rename_i hlen
            cases h
            exact hlen
          · cases h
    · cases h

end Http

namespace HttpSource

variable {ω : Type} [WebClient ω] {s : HttpSource ω}

/-- An empty range is not asked for, and any other comes to what is made of the reply. -/
theorem fetch_eq (s : HttpSource ω) (r : ByteRange) (limit : Duration) :
    (s.fetch r limit).1 = if r.isEmpty then .ok []
      else Http.rangeOf limit r (WebClient.send s.client (Http.rangeRequest s.url r)).1 := by
  unfold fetch
  split <;> rfl

/-- A server whose replies to a range, if it is asked for, come to some answer. -/
theorem fetch_eq_answerFrom
    (h : r.isEmpty = false → Http.rangeOf limit r
      (WebClient.send s.client (Http.rangeRequest s.url r)).1 = r.answerFrom C) :
    (s.fetch r limit).1 = r.answerFrom C := by
  rw [fetch_eq]
  split
  · rename_i hempty
    rw [answerFrom_of_empty hempty]
  · rename_i hempty
    exact h (Bool.eq_false_of_not_eq_true hempty)

theorem length_of_fetch {b : Bytes} (h : (s.fetch r limit).1 = .ok b) : b.length = r.size := by
  rw [fetch_eq] at h
  split at h
  · rename_i hempty
    cases h
    exact (isEmpty_iff.1 hempty).symm
  · exact Http.length_of_rangeOf h

end HttpSource

/-! ### All of them -/

/-- **Sources of the same content answer alike**: a file, for a range that is empty or ends
before the last position that a file can have; a server that sends the whole file; and a
server that sends as much of the range as there is, for a range that is empty or starts in
the file or at its end. The system refuses to read the other ranges of a file, unless they are too
large for a buffer and not answered at all. Whatever a server replies, and whatever is in a file, an
answer has the length of the range. -/
theorem sources_agree {ω : Type} [WebClient ω] (C : Bytes) (r : ByteRange) (limit : Duration)
    (d : Disk) :
    (∀ (f : FileSource) (id : Nat), f.handle.node = .file id → d.content id = C →
      d.weather d.clock .read f.handle.path = none →
      (r.isEmpty = true ∨ r.stop < Disk.maxOffset → f.answer? d r = some (r.answerFrom C)) ∧
      (r.isEmpty = false → Disk.maxOffset ≤ r.stop → r.size ≤ FileSource.maxBuffer →
        f.answer? d r =
          some (.error (.io s!"{f.handle.path}: {IoError.invalidArgument.message}")))) ∧
    (∀ f : FileSource, (FileSource.maxBuffer < r.size → f.answer? d r = none) ∧
      ∀ a, f.answer? d r = some a → (RangeSource.fetch f d r limit).1 = a) ∧
    (∀ (s : HttpSource ω) (n : Option Nat),
      (WebClient.send s.client (Http.rangeRequest s.url r)).1 = .ok ⟨200, n, .ok C⟩ →
      (RangeSource.fetch s d r limit).1 = r.answerFrom C) ∧
    (∀ (s : HttpSource ω) (n : Option Nat), r.isEmpty = true ∨ r.start ≤ C.length →
      (WebClient.send s.client (Http.rangeRequest s.url r)).1 =
        .ok ⟨206, n, .ok (C.slice r.start (min r.stop C.length - r.start))⟩ →
      (RangeSource.fetch s d r limit).1 = r.answerFrom C) ∧
    (∀ (s : HttpSource ω) (b : Bytes), (RangeSource.fetch s d r limit).1 = .ok b →
      b.length = r.size) ∧
    ∀ (f : FileSource) (b : Bytes), (RangeSource.fetch f d r limit).1 = .ok b →
      b.length = r.size := by
  refine ⟨fun f id hnode hC hfair => ⟨fun hr => ?_, fun hne hpast hle => ?_⟩,
    fun f => ⟨FileSource.answer?_of_gt, fun a => FileSource.answer_of_answer?⟩,
    fun s n hsend => ?_, fun s n hr hsend => ?_, fun s b => HttpSource.length_of_fetch,
    fun f b => FileSource.length_of_answer⟩
  · rw [FileSource.answer?_of_le (FileSource.size_le_maxBuffer hr),
      FileSource.readInto_eq hnode hC hfair hr]
  · rw [FileSource.answer?_of_le hle, FileSource.readInto_past hfair hne hpast]
  · refine HttpSource.fetch_eq_answerFrom fun hne => ?_
    rw [hsend]
    exact Http.rangeOf_full hne
  · refine HttpSource.fetch_eq_answerFrom fun hne => ?_
    rw [hsend]
    refine Http.rangeOf_partial hne ?_
    rcases hr with hempty | hstart
    · cases hne.symm.trans hempty
    · exact hstart

/-- A server that sends the same reply to everything. -/
structure Steadfast where
  reply : Http.Reply

instance : WebClient Steadfast where
  send s _ := (s.reply, s)

/-- A server whose replies have the given status and body. -/
def serving (status : Nat) (body : Bytes) : HttpSource Steadfast :=
  ⟨⟨.ok ⟨status, none, .ok body⟩⟩, ""⟩

/-- The letters as a file. -/
def lettersFile : FileSource := ⟨⟨"m", .file 0, false⟩⟩

/-- A disk with that file. -/
def lettersDisk : Disk := { names := [("m", .file 0)], files := [Session.letters] }

/-- From the sixth letter to a place behind the last one. -/
def straddling : ByteRange := ⟨5, 12, Nat.le_of_ble_eq_true rfl⟩

/-- A moment. -/
def moment : Duration := .ofMilliseconds 1

/-- The last three letters, from a file, from a server that sends all of them and from one
that sends the range, and all letters from the file. -/
theorem sources_agree_letters :
    (straddling.answerFrom Session.letters = .error (.shortRead 7 3) ∧
      (RangeSource.fetch lettersFile lettersDisk straddling moment).1 =
        straddling.answerFrom Session.letters ∧
      (RangeSource.fetch (serving 200 Session.letters) lettersDisk straddling moment).1 =
        straddling.answerFrom Session.letters ∧
      (RangeSource.fetch (serving 206 [102, 103, 104]) lettersDisk straddling moment).1 =
        straddling.answerFrom Session.letters) ∧
    ∃ b, (RangeSource.fetch lettersFile lettersDisk Session.allLetters moment).1 = .ok b ∧
      b.length = 8 := by
  refine ⟨?_, ?_⟩
  · obtain ⟨hfile, hsome, hfull, hpartial, -, -⟩ :=
      @sources_agree Steadfast _ Session.letters straddling moment lettersDisk
    have hanswer := (hfile lettersFile 0 rfl rfl rfl).1 (.inr (by decide))
    refine ⟨rfl, (hsome lettersFile).2 _ hanswer, ?_, ?_⟩
    · exact hfull (serving 200 Session.letters) none rfl
    · exact hpartial (serving 206 [102, 103, 104]) none (.inr (by decide)) rfl
  · obtain ⟨-, -, -, -, -, hlength⟩ :=
      @sources_agree Steadfast _ Session.letters Session.allLetters moment lettersDisk
    exact ⟨Session.letters, rfl, hlength lettersFile _ rfl⟩

/-- One byte at the first position that no file has. -/
def pastAll : ByteRange := ⟨Disk.maxOffset, Disk.maxOffset + 1, Nat.le_succ _⟩

/-- All positions that a file can have. -/
def allPositions : ByteRange := ⟨0, Disk.maxOffset, Nat.zero_le _⟩

/-- Behind the last position that a file can have, a file does not tell how little of the
range there is, also if the system never fails without a reason; and it does not answer at all if
there is no buffer for the range. -/
theorem sources_disagree :
    (¬ ∀ (C : Bytes) (r : ByteRange) (limit : Duration) (d : Disk) (f : FileSource) (id : Nat),
      d.Fair → f.handle.node = .file id → d.content id = C →
        (RangeSource.fetch f d r limit).1 = r.answerFrom C) ∧
    ¬ ∀ (r : ByteRange) (d : Disk) (f : FileSource), d.Fair → (f.answer? d r).isSome = true := by
  refine ⟨fun h => ?_, fun h => ?_⟩
  · have hagree :=
      h Session.letters pastAll moment lettersDisk lettersFile 0 (fun _ _ _ => rfl) rfl rfl
    have hrefused : (RangeSource.fetch lettersFile lettersDisk pastAll moment).1 =
        .error (.io "m: Invalid argument (os error 22)") := rfl
    have hshort : pastAll.answerFrom Session.letters = .error (.shortRead 1 0) := by
      rw [ByteRange.answerFrom_of_lt (by decide) (by decide)]
      rfl
    rw [hrefused, hshort] at hagree
    cases hagree
  · have hnone : lettersFile.answer? lettersDisk allPositions = none :=
      FileSource.answer?_of_gt (Nat.lt_succ_self _)
    have hsome := h allPositions lettersDisk lettersFile fun _ _ _ => rfl
    rw [hnone] at hsome
    cases hsome

end VerifiedCopy
