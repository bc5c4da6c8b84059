/-
# Which chunks are read ahead

A reader keeps three numbers of the reads so far: where the last one ended, how many
in a row started where the one before had ended, and a mark below which everything
was handed to a job in this streak. Here these are tied to the reads themselves, which
are written down as notes, the newest first (`Remembered`, `Reads.remembered`).

Within a streak the last chunk of a read never falls back, and so the mark alone tells
the chunks behind it whose turn has come (`turn?`) from those that wait: none is
skipped between two windows and none is handed out twice (`Remembered.noteRead`).

The program keeps the numbers in words. Two of the additions stop at the largest word;
the third, one more than the last chunk of a read, does not wrap around, because it is
at most the number of chunks (`Words.note_value`).

Whatever a reader is used for, its notes are those of the reads that gave out bytes
(`Reads.useAll`), and a read runs a job over the chunks that its note hands out
(`read_of_startJob`).

Key definitions: `Note`, `streak`, `turn?`, `Remembered`, `Reads`, `notedAll`,
`ReadAhead.Words`.
Key theorems: `Remembered.noteRead`, `Reads.remembered`, `Reads.useAll`,
`Words.note_value`, `reads_ahead`.
-/
import Mathlib.Data.List.Sort
import VerifiedCopy.Proofs.Layout.Overlap
import VerifiedCopy.Proofs.Routine

namespace VerifiedCopy

/-! ### What a read leaves of a reader -/

namespace Reader

/-- Two readers of the same content with the same settings remember the same reads. -/
structure Remembers (r r' : Reader) : Prop where
  ahead : r'.ahead = r.ahead
  config : r'.config = r.config
  layout : r'.fetcher.layout = r.fetcher.layout

theorem Remembers.refl (r : Reader) : r.Remembers r := ⟨rfl, rfl, rfl⟩

theorem Remembers.trans {r r' r'' : Reader} (h : r.Remembers r') (h' : r'.Remembers r'') :
    r.Remembers r'' :=
  ⟨h'.ahead.trans h.ahead, h'.config.trans h.config, h'.layout.trans h.layout⟩

section Work

variable {σ : Type} [RangeSource σ]

omit [RangeSource σ] in
theorem recheckOnce_remembers (r : Reader) (i : Nat) (s : Site σ) :
    r.Remembers (r.recheckOnce i s).2.1 := by
  unfold recheckOnce
  split
  · split
    · exact .refl r
    · exact ⟨rfl, rfl, rfl⟩
  · exact .refl r

theorem ensureChunk_remembers (r : Reader) (i : Nat) (s : Site σ) :
    r.Remembers (r.ensureChunk i s).2.1 := by
  have hchecked := recheckOnce_remembers r i s
  unfold ensureChunk
  rcases hr : r.recheckOnce i s with ⟨e | u, r', s'⟩
  · rw [hr] at hchecked
    exact hchecked
  · rw [hr] at hchecked
    dsimp only
    rcases he : r'.fetcher.ensure i s' with ⟨e | out, s''⟩
    · exact hchecked
    · cases out with
      | alreadyVerified | joined => exact hchecked
      | fetched n =>
        exact hchecked.trans ⟨rfl, rfl, (Fetcher.noteFetched_quiet r'.fetcher s'').1⟩

theorem ensureChunks_remembers (l : List Nat) (r : Reader) (s : Site σ) :
    r.Remembers (ensureChunks l r s).2.1 := by
  induction l generalizing r s with
  | nil => exact .refl r
  | cons i rest ih =>
    have hfirst := ensureChunk_remembers r i s
    unfold ensureChunks
    rcases he : r.ensureChunk i s with ⟨e | u, r', s'⟩
    · rw [he] at hfirst
      exact hfirst
    · rw [he] at hfirst
      exact hfirst.trans (ih r' s')

theorem fill_remembers (r : Reader) (range : ByteRange) (s : Site σ) :
    r.Remembers (r.fill range s).2.1 := by
  have hchunks := ensureChunks_remembers (r.fetcher.layout.overlapping range) r s
  unfold fill
  rcases he : ensureChunks (r.fetcher.layout.overlapping range) r s with ⟨e | u, r', s'⟩
  · rw [he] at hchunks
    exact hchunks
  · rw [he] at hchunks
    exact hchunks

/-- Jobs do not change the content of a fetcher. -/
theorem jobRoutine_layout :
    Fetcher.JobRoutine fun (f : Fetcher) (_ : Site σ) f' _ => f'.layout = f.layout where
  refl _ _ := rfl
  trans h h' := h'.trans h
  trial f i s := (f.trial_spec i s).layout
  flush _ _ := rfl

theorem runJob_remembers (r : Reader) (j : Job) (s : Site σ) : r.Remembers (r.runJob j s).2.1 :=
  ⟨rfl, rfl, jobRoutine_layout.run j r.fetcher s⟩

/-- Reading ahead is not a read. -/
theorem readAhead_remembers (r : Reader) (window : List Nat) (s : Site σ) :
    r.Remembers (r.readAhead window s).1 := by
  unfold readAhead
  split
  · exact .refl r
  · split
    · exact .refl r
    · rename_i j _
      exact (runJob_remembers r j s).trans ⟨rfl, rfl, rfl⟩

/-- Bringing a range in beforehand is not a read either. -/
theorem prebuffer_remembers (r : Reader) (range : ByteRange) (s : Site σ) :
    r.Remembers (r.prebuffer range s).2.1 := by
  unfold prebuffer
  split
  · exact .refl r
  · exact runJob_remembers r _ s

/-- A read that fails is not remembered. -/
theorem readRange_remembers {r r' : Reader} {range : ByteRange} {s s' : Site σ} {e : Error}
    (h : r.readRange range s = (.error e, r', s')) : r.Remembers r' := by
  have hfill := fill_remembers r range s
  unfold readRange at h
  split at h
  · cases h
    exact .refl r
  · split at h
    · cases h
    · rcases hf : r.fill range s with ⟨e | b, r₁, s₁⟩
      · rw [hf] at h hfill
        cases h
        exact hfill
      · rw [hf] at h
        cases h

/-- A read of nothing is not remembered. -/
theorem readRange_empty_remembers {r : Reader} {range : ByteRange} (h : range.isEmpty = true)
    (s : Site σ) : r.Remembers (r.readRange range s).2.1 := by
  unfold readRange
  split
  · exact .refl r
  · rw [if_pos h]
    exact .refl r

omit [RangeSource σ] in
/-- What is decided after a read depends on what is remembered. -/
theorem Remembers.noteRead {r r' : Reader} (h : r.Remembers r') (range : ByteRange) (g : Ledger) :
    (r'.noteRead range g).1 = (r.noteRead range g).1 ∧
      (r'.noteRead range g).2.ahead = (r.noteRead range g).2.ahead := by
  have hend : r'.windowEnd = r.windowEnd := by
    funext last
    unfold windowEnd
    rw [h.config, h.layout]
  unfold Reader.noteRead
  rw [h.config, h.layout, h.ahead, hend]
  dsimp only
  split
  · exact ⟨rfl, h.ahead⟩
  · split
    · exact ⟨rfl, rfl⟩
    · split <;> exact ⟨rfl, rfl⟩

/-- What is decided after a read that gave out bytes. -/
theorem noteRead_of_readRange {r r' : Reader} {range : ByteRange} {s s' : Site σ} {b : Bytes}
    {window : List Nat} (hne : range.isEmpty = false)
    (h : r.readRange range s = (.ok (b, window), r', s')) :
    (range.start < range.stop ∧ range.stop ≤ r.fetcher.layout.totalSize) ∧
      (r.noteRead range s'.ledger).1 = window ∧
      r.Remembers { r' with ahead := r.ahead } ∧
      r'.ahead = (r.noteRead range s'.ledger).2.ahead := by
  have hfill := fill_remembers r range s
  have hlt := ByteRange.isEmpty_eq_false_iff.1 hne
  unfold readRange at h
  split at h
  · cases h
  · rename_i u hcheck
    have hin : range.stop ≤ r.fetcher.layout.totalSize := by
      unfold checkBounds at hcheck
      split at hcheck
      · cases hcheck
      · rename_i hle
        exact Nat.not_lt.1 hle
    rw [if_neg (by rw [hne]; exact Bool.false_ne_true)] at h
    rcases hf : r.fill range s with ⟨e | b', r₁, s₁⟩
    · rw [hf] at h
      cases h
    · rw [hf] at h hfill
      cases h
      obtain ⟨hfetcher, hconfig, -⟩ := noteRead_fetcher r₁ range s'.ledger
      obtain ⟨hwindow, hahead⟩ := hfill.noteRead range s'.ledger
      refine ⟨⟨hlt, hin⟩, hwindow.symm, ⟨rfl, hconfig.trans hfill.config, ?_⟩, hahead⟩
      exact (congrArg Fetcher.layout hfetcher).trans hfill.layout

end Work

/-! ### Notes -/

/-- A read as it is written down: its range, the ledger when it was over, and the chunks
that it hands to a job. -/
structure Note where
  range : ByteRange
  ledger : Ledger
  window : List Nat

namespace Note

/-- The last chunk of a read. -/
def last (l : Layout) (n : Note) : Nat := (n.range.stop - 1) / l.chunkSize

/-- Chunk `i` is one of those that follow a read, as many as are read ahead. -/
def Reaches (l : Layout) (c : ReaderConfig) (n : Note) (i : Nat) : Prop :=
  n.last l < i ∧ i ≤ n.last l + c.readaheadChunks.toNat ∧ i < l.chunkCount

instance (l : Layout) (c : ReaderConfig) (n : Note) (i : Nat) : Decidable (n.Reaches l c i) :=
  inferInstanceAs (Decidable (_ ∧ _ ∧ _))

end Note

/-- How many of the latest reads, the newest first, started where the one before had
ended. -/
def streak : List Note → Nat
  | n :: m :: older => if m.range.stop = n.range.start then streak (m :: older) + 1 else 0
  | _ => 0

/-- The reads of the streak that the newest one belongs to. -/
def currentStreak (notes : List Note) : List Note := notes.take (streak notes + 1)

/-- The newest read comes late enough in its streak for reading ahead. -/
def Due (c : ReaderConfig) (notes : List Note) : Prop := c.readaheadAfter.toNat ≤ streak notes

instance (c : ReaderConfig) (notes : List Note) : Decidable (Due c notes) :=
  inferInstanceAs (Decidable (_ ≤ _))

/-- The read at which the turn of chunk `i` came: the first in the streak that was late
enough and reached it. -/
def turn? (l : Layout) (c : ReaderConfig) (i : Nat) : List Note → Option Note
  | [] => none
  | n :: older =>
    (if 0 < streak (n :: older) then turn? l c i older else none).or
      (if Due c (n :: older) ∧ n.Reaches l c i then some n else none)

variable {l : Layout} {c : ReaderConfig} {n m : Note} {notes older : List Note} {i : Nat}

theorem streak_pos_iff : 0 < streak (n :: older) ↔
    ∃ m rest, older = m :: rest ∧ m.range.stop = n.range.start := by
  cases older with
  | nil => exact ⟨fun h => absurd h (Nat.lt_irrefl 0), fun ⟨m, rest, h, _⟩ => nomatch h⟩
  | cons m rest =>
    unfold streak
    by_cases h : m.range.stop = n.range.start
    · rw [if_pos h]
      exact ⟨fun _ => ⟨m, rest, rfl, h⟩, fun _ => Nat.succ_pos _⟩
    · rw [if_neg h]
      refine ⟨fun h => absurd h (by decide), ?_⟩
      rintro ⟨m', rest', heq, hstop⟩
      cases heq
      exact absurd hstop h

theorem streak_of_pos (h : 0 < streak (n :: older)) : streak (n :: older) = streak older + 1 := by
  obtain ⟨m, rest, rfl, hstop⟩ := streak_pos_iff.1 h
  exact if_pos hstop

theorem currentStreak_of_pos (h : 0 < streak (n :: older)) :
    currentStreak (n :: older) = n :: currentStreak older := by
  unfold currentStreak
  rw [streak_of_pos h, List.take_succ_cons]

theorem currentStreak_of_not_pos (h : ¬ 0 < streak (n :: older)) :
    currentStreak (n :: older) = [n] := by
  unfold currentStreak
  rw [Nat.eq_zero_of_not_pos h, List.take_succ_cons, List.take_zero]

/-- The turn of a chunk has come if it came earlier in the streak or comes now. -/
theorem turn?_isSome_iff : (turn? l c i (n :: older)).isSome = true ↔
    (0 < streak (n :: older) ∧ (turn? l c i older).isSome = true) ∨
      (Due c (n :: older) ∧ n.Reaches l c i) := by
  rw [turn?, Option.isSome_or, Bool.or_eq_true]
  refine or_congr ?_ ?_
  · by_cases h : 0 < streak (n :: older)
    · simp [h]
    · simp [h]
  · by_cases h : Due c (n :: older) ∧ n.Reaches l c i
    · simp [h]
    · simp [h]

/-- The turn of a chunk came at a read of this streak, which reached it. -/
theorem mem_of_turn? (h : turn? l c i notes = some m) :
    m ∈ currentStreak notes ∧ m.Reaches l c i := by
  induction notes with
  | nil => cases h
  | cons n older ih =>
    unfold turn? at h
    rcases Option.or_eq_some_iff.1 h with hold | ⟨-, hnew⟩
    · split at hold
      · rename_i hpos
        obtain ⟨hmem, hreach⟩ := ih hold
        rw [currentStreak_of_pos hpos]
        exact ⟨List.mem_cons_of_mem n hmem, hreach⟩
      · cases hold
    · split at hnew
      · rename_i hdue
        cases hnew
        exact ⟨List.mem_cons_self, hdue.2⟩
      · cases hnew

/-! ### The memory of a reader -/

/-- What a reader remembers of the reads in its notes. -/
structure Remembered (l : Layout) (c : ReaderConfig) (a : ReadAhead) (notes : List Note) :
    Prop where
  next : a.nextOffset = notes.head?.map fun n => n.range.stop
  streak : a.streak = min (streak notes) ReadAhead.maxStreak
  /-- Behind the last read, the mark tells whose turn has come. -/
  mark : ∀ i < l.chunkCount, (∀ n ∈ notes.head?, n.last l < i) →
    (i < a.dispatchedTo ↔ (turn? l c i notes).isSome = true)
  mark_le : a.dispatchedTo ≤ l.chunkCount
  inside : ∀ n ∈ notes.head?, n.range.start < n.range.stop ∧ n.range.stop ≤ l.totalSize
  /-- What a read of this streak handed to a job had its turn. -/
  handed : ∀ n ∈ currentStreak notes, ∀ i ∈ n.window, (turn? l c i notes).isSome = true
  /-- Who had its turn was handed to a job, or was verified. -/
  served : ∀ i n, turn? l c i notes = some n → n.ledger.state i = .verified ∨ i ∈ n.window

theorem remembered_nil (l : Layout) (c : ReaderConfig) : Remembered l c {} [] where
  next := rfl
  streak := rfl
  mark i _ _ := ⟨fun h => absurd h (Nat.not_lt_zero i), fun h => nomatch h⟩
  mark_le := Nat.zero_le _
  inside _ h := nomatch h
  handed _ h := nomatch h
  served _ _ h := nomatch h

variable {a : ReadAhead}

/-- The streak goes on in the memory where it goes on in the notes. -/
theorem Remembered.follow (h : Remembered l c a older) (n : Note) :
    (a.follow n.range).nextOffset = some n.range.stop ∧
    (a.follow n.range).streak = min (Reader.streak (n :: older)) ReadAhead.maxStreak ∧
    (a.follow n.range).dispatchedTo =
      if 0 < Reader.streak (n :: older) then a.dispatchedTo else 0 := by
  have hnext := h.next
  have hstreak := h.streak
  unfold ReadAhead.follow
  by_cases hpos : 0 < Reader.streak (n :: older)
  · obtain ⟨m, rest, rfl, hstop⟩ := streak_pos_iff.1 hpos
    have hsome : a.nextOffset = some n.range.start := by
      rw [hnext, ← hstop]
      rfl
    rw [if_pos hsome, if_pos hpos, streak_of_pos hpos]
    refine ⟨rfl, ?_, rfl⟩
    dsimp only
    omega
  · have hne : a.nextOffset ≠ some n.range.start := by
      rw [hnext]
      cases older with
      | nil => exact nofun
      | cons m rest =>
        intro heq
        exact hpos (streak_pos_iff.2 ⟨m, rest, rfl, Option.some.inj heq⟩)
    rw [if_neg hne, if_neg hpos, Nat.eq_zero_of_not_pos hpos]
    exact ⟨rfl, rfl, rfl⟩

/-- Within a streak the last chunk of a read does not fall back. -/
theorem last_le_last (hm : m.range.stop = n.range.start) (hn : n.range.start < n.range.stop) :
    m.last l ≤ n.last l := by
  unfold Note.last
  exact Nat.div_le_div_right (by omega)

/-- Behind the new read, the mark that is left tells whose turn came before. -/
theorem Remembered.mark_follow (h : Remembered l c a older)
    (hn : n.range.start < n.range.stop) (hi : i < l.chunkCount) (hlast : n.last l < i) :
    i < (a.follow n.range).dispatchedTo ↔
      0 < Reader.streak (n :: older) ∧ (turn? l c i older).isSome = true := by
  rw [(h.follow n).2.2]
  by_cases hpos : 0 < Reader.streak (n :: older)
  · obtain ⟨m, rest, rfl, hstop⟩ := streak_pos_iff.1 hpos
    rw [if_pos hpos, h.mark i hi fun m' hm' => ?_]
    · exact (and_iff_right hpos).symm
    · cases hm'
      exact Nat.lt_of_le_of_lt (last_le_last hstop hn) hlast
  · rw [if_neg hpos]
    exact ⟨fun h => absurd h (Nat.not_lt_zero i), fun h => absurd h.1 hpos⟩

/-! ### One read -/

section Step

variable {r : Reader} {range : ByteRange}

/-- What is handed to a job after a read, and the memory after it. -/
theorem noteRead_eq (hon : r.config.readaheadChunks ≠ 0)
    (hin : range.start < range.stop ∧ range.stop ≤ r.fetcher.layout.totalSize) (g : Ledger) :
    r.noteRead range g =
      if (r.ahead.follow range).streak < r.config.readaheadAfter.toNat then
        ([], { r with ahead := r.ahead.follow range })
      else
        let last := (range.stop - 1) / r.fetcher.layout.chunkSize
        let first := max (last + 1) (r.ahead.follow range).dispatchedTo
        ((List.range' first (r.windowEnd last - first)).filter fun i => g.state i ≠ .verified,
          { r with ahead := { r.ahead.follow range with
            dispatchedTo := max (r.ahead.follow range).dispatchedTo (r.windowEnd last) } }) := by
  have hlast : r.fetcher.layout.chunkIndexOf? (range.stop - 1) =
      some ((range.stop - 1) / r.fetcher.layout.chunkSize) := if_pos (by omega)
  unfold noteRead
  rw [if_neg hon, hlast]

/-- The streak is long enough in the memory where it is in the notes. -/
theorem due_iff {k : Nat} (h : k = min (streak notes) ReadAhead.maxStreak) :
    Due c notes ↔ ¬ k < c.readaheadAfter.toNat := by
  have hword := c.readaheadAfter.toNat_lt
  have hmax : ReadAhead.maxStreak = 2 ^ 32 - 1 := rfl
  unfold Due
  omega

/-- The chunks up to the end of the window are those within reach. -/
theorem lt_windowEnd_iff (hlast : n.last r.fetcher.layout < i) :
    i < r.windowEnd (n.last r.fetcher.layout) ↔ n.Reaches r.fetcher.layout r.config i := by
  unfold windowEnd Note.Reaches
  omega

variable (hon : r.config.readaheadChunks ≠ 0)
  (hin : n.range.start < n.range.stop ∧ n.range.stop ≤ r.fetcher.layout.totalSize)
  (h : Remembered r.fetcher.layout r.config r.ahead older)
  (hnote : (r.noteRead n.range n.ledger).1 = n.window)

include hon hin h hnote

/-- A read that is late enough in its streak hands out the window behind the mark, and moves the
mark to the end of the window. -/
theorem noteRead_due :
    n.window = (if Due r.config (n :: older) then
      (List.range' (max (n.last r.fetcher.layout + 1) (r.ahead.follow n.range).dispatchedTo)
        (r.windowEnd (n.last r.fetcher.layout) -
          max (n.last r.fetcher.layout + 1) (r.ahead.follow n.range).dispatchedTo)).filter
        fun i => n.ledger.state i ≠ .verified
      else []) ∧
    (r.noteRead n.range n.ledger).2.ahead = { r.ahead.follow n.range with
      dispatchedTo := if Due r.config (n :: older) then
        max (r.ahead.follow n.range).dispatchedTo (r.windowEnd (n.last r.fetcher.layout))
        else (r.ahead.follow n.range).dispatchedTo } := by
  have hdue := due_iff (c := r.config) (h.follow n).2.1
  rw [← hnote, noteRead_eq hon hin]
  by_cases hnow : Due r.config (n :: older)
  · rw [if_neg (hdue.1 hnow), if_pos hnow, if_pos hnow]
    exact ⟨rfl, rfl⟩
  · rw [if_pos (Classical.not_not.1 fun hlt => hnow (hdue.2 hlt)), if_neg hnow, if_neg hnow]
    exact ⟨rfl, rfl⟩

theorem window_sorted : n.window.Pairwise (· < ·) := by
  rw [(noteRead_due hon hin h hnote).1]
  split
  · exact (List.pairwise_lt_range' 1 Nat.one_pos).filter _
  · exact .nil

/-- The chunks that are handed to a job are those within reach whose turn did not come earlier in
the streak and that are not verified, if the read is late enough in its streak. -/
theorem mem_window_iff (i : Nat) : i ∈ n.window ↔
    Due r.config (n :: older) ∧ n.Reaches r.fetcher.layout r.config i ∧
      ¬ (0 < streak (n :: older) ∧
        (turn? r.fetcher.layout r.config i older).isSome = true) ∧
      n.ledger.state i ≠ .verified := by
  rw [(noteRead_due hon hin h hnote).1]
  by_cases hnow : Due r.config (n :: older)
  · rw [if_pos hnow, List.mem_filter, decide_eq_true_iff, List.mem_range'_1, and_iff_right hnow,
      ← and_assoc]
    refine and_congr_left fun _ => ?_
    constructor
    · rintro ⟨hfirst, hend⟩
      have hlast : n.last r.fetcher.layout < i := by omega
      have hreach := (lt_windowEnd_iff hlast).1 (by omega)
      rw [← h.mark_follow hin.1 hreach.2.2 hlast]
      exact ⟨hreach, by omega⟩
    · rintro ⟨hreach, hturn⟩
      rw [← h.mark_follow hin.1 hreach.2.2 hreach.1] at hturn
      have hlast := hreach.1
      have hend := (lt_windowEnd_iff hlast).2 hreach
      omega
  · rw [if_neg hnow]
    exact ⟨fun hi => absurd hi List.not_mem_nil, fun hi => absurd hi.1 hnow⟩

/-- Behind the new read, the new mark tells whose turn has come. -/
theorem lt_mark_iff (hi : i < r.fetcher.layout.chunkCount) (hlast : n.last r.fetcher.layout < i) :
    i < (r.noteRead n.range n.ledger).2.ahead.dispatchedTo ↔
      (turn? r.fetcher.layout r.config i (n :: older)).isSome = true := by
  have hbefore := h.mark_follow hin.1 hi hlast
  have hreach := lt_windowEnd_iff hlast
  rw [(noteRead_due hon hin h hnote).2, turn?_isSome_iff, ← hbefore, ← hreach]
  by_cases hnow : Due r.config (n :: older)
  · rw [if_pos hnow, and_iff_right hnow]
    exact lt_max_iff
  · rw [if_neg hnow]
    exact ⟨.inl, fun hor => hor.resolve_right fun hdue => hnow hdue.1⟩

/-- What this read or an earlier one of the streak handed to a job had its turn. -/
theorem turn?_of_mem_window {m : Note} (hm : m ∈ currentStreak (n :: older)) (hi : i ∈ m.window) :
    (turn? r.fetcher.layout r.config i (n :: older)).isSome = true := by
  have hnow := mem_window_iff hon hin h hnote i
  rw [turn?_isSome_iff]
  by_cases hpos : 0 < streak (n :: older)
  · rw [currentStreak_of_pos hpos] at hm
    rcases List.mem_cons.1 hm with rfl | hm
    · exact .inr ⟨(hnow.1 hi).1, (hnow.1 hi).2.1⟩
    · exact .inl ⟨hpos, h.handed m hm i hi⟩
  · rw [currentStreak_of_not_pos hpos, List.mem_singleton] at hm
    rw [hm] at hi
    exact .inr ⟨(hnow.1 hi).1, (hnow.1 hi).2.1⟩

/-- Who had its turn was handed to a job, or was verified. -/
theorem served_of_turn? {m : Note}
    (hm : turn? r.fetcher.layout r.config i (n :: older) = some m) :
    m.ledger.state i = .verified ∨ i ∈ m.window := by
  have hnow := mem_window_iff hon hin h hnote i
  rw [turn?] at hm
  rcases Option.or_eq_some_iff.1 hm with hold | ⟨hnone, hnew⟩
  · split at hold
    · exact h.served i m hold
    · cases hold
  · split at hnew
    · rename_i hdue
      cases hnew
      by_cases hv : n.ledger.state i = .verified
      · exact .inl hv
      · refine .inr (hnow.2 ⟨hdue.1, hdue.2, fun hturn => ?_, hv⟩)
        rw [if_pos hturn.1] at hnone
        rw [hnone] at hturn
        exact nomatch hturn.2
    · cases hnew

/-- A read is remembered. -/
theorem Remembered.noteRead :
    Remembered r.fetcher.layout r.config (r.noteRead n.range n.ledger).2.ahead (n :: older) := by
  obtain ⟨hnext, hstreak, hmark⟩ := h.follow n
  have hahead := (noteRead_due hon hin h hnote).2
  have hle := h.mark_le
  have hend : r.windowEnd (n.last r.fetcher.layout) ≤ r.fetcher.layout.chunkCount :=
    Nat.min_le_right _ _
  refine ⟨?_, ?_, fun i hi hlast => ?_, ?_, fun m hm => ?_, fun m hm i hi => ?_,
    fun i m hm => ?_⟩
  · rw [hahead]
    exact hnext
  · rw [hahead]
    exact hstreak
  · exact lt_mark_iff hon hin h hnote hi (hlast n rfl)
  · rw [hahead]
    dsimp only
    rw [hmark]
    split <;> split <;> omega
  · cases hm
    exact hin
  · exact turn?_of_mem_window hon hin h hnote hm hi
  · exact served_of_turn? hon hin h hnote hm

end Step

/-! ### All reads of a reader -/

section Reads

variable {σ : Type} [RangeSource σ]

/-- The reader `r` has given out bytes in the reads of these notes, the newest first, and in no
others. Between two reads its site may have become any other, and the reader may have been used as
long as that is not remembered; so any uses of a reader are such reads (`Reads.useAll`). -/
inductive Reads (σ : Type) [RangeSource σ] : Reader → List Note → Prop
  | created {entry : Entry} {tree : Tree} {ledger : Ledger} {file : LocalFile}
      {transfer : TransferConfig} {config : ReaderConfig} {r : Reader}
      (h : Reader.create entry tree ledger file transfer config = .ok r) : Reads σ r []
  | read {r r' : Reader} {notes : List Note} {range : ByteRange} {s s' : Site σ} {b : Bytes}
      {window : List Nat} (h : Reads σ r notes) (hne : range.isEmpty = false)
      (hread : r.readRange range s = (.ok (b, window), r', s')) :
      Reads σ r' (⟨range, s'.ledger, window⟩ :: notes)
  | between {r r' : Reader} {notes : List Note} (h : Reads σ r notes) (hr : r.Remembers r') :
      Reads σ r' notes

omit [RangeSource σ] in
theorem ahead_of_create {entry : Entry} {tree : Tree} {ledger : Ledger} {file : LocalFile}
    {transfer : TransferConfig} {config : ReaderConfig} {r : Reader}
    (h : Reader.create entry tree ledger file transfer config = .ok r) : r.ahead = {} := by
  obtain ⟨-, -, rfl⟩ := Reader.create_eq_ok_iff.1 h
  rfl

variable {r r' : Reader} {range : ByteRange} {s s' : Site σ} {b : Bytes} {window : List Nat}

/-- A read that gives out bytes is remembered. -/
theorem Remembered.read (h : Remembered r.fetcher.layout r.config r.ahead notes)
    (hon : r.config.readaheadChunks ≠ 0) (hne : range.isEmpty = false)
    (hread : r.readRange range s = (.ok (b, window), r', s')) :
    Remembered r'.fetcher.layout r'.config r'.ahead (⟨range, s'.ledger, window⟩ :: notes) := by
  obtain ⟨hin, hnote, hsame, hahead⟩ := noteRead_of_readRange hne hread
  have hconfig : r'.config = r.config := hsame.config
  have hlayout : r'.fetcher.layout = r.fetcher.layout := hsame.layout
  rw [hlayout, hconfig, hahead]
  exact Remembered.noteRead (n := ⟨range, s'.ledger, window⟩) hon hin h hnote

/-- A reader remembers its reads. -/
theorem Reads.remembered (h : Reads σ r notes) (hon : r.config.readaheadChunks ≠ 0) :
    Remembered r.fetcher.layout r.config r.ahead notes := by
  induction h with
  | created h =>
    rw [ahead_of_create h]
    exact remembered_nil _ _
  | read _ hne hread ih =>
    obtain ⟨-, -, hsame, -⟩ := noteRead_of_readRange hne hread
    have hconfig : _ = _ := hsame.config
    rw [hconfig] at hon
    exact (ih hon).read hon hne hread
  | between _ hr ih =>
    rw [hr.config] at hon
    rw [hr.layout, hr.config, hr.ahead]
    exact ih hon

/-- What a read adds to the notes: itself, if it gives out bytes. -/
def notedRead (r : Reader) (range : ByteRange) (s : Site σ) : List Note :=
  match r.readRange range s with
  | (.ok (_, window), _, s') => if range.isEmpty then [] else [⟨range, s'.ledger, window⟩]
  | (.error _, _) => []

/-- What a use of a reader adds to the notes. -/
def noted (r : Reader) (s : Site σ) : Use → List Note
  | .read range => r.notedRead range s
  | .readRange range => r.notedRead range s
  | .prebuffer _ | .prefetch _ _ | .settle _ => []

/-- The notes after several uses. -/
def notedAll : List Use → Reader → Site σ → List Note → List Note
  | [], _, _, notes => notes
  | u :: uses, r, s, notes =>
    notedAll uses (r.use s u).2.1 (r.use s u).2.2 (r.noted s u ++ notes)

theorem notedRead_of_readRange (hne : range.isEmpty = false)
    (hread : r.readRange range s = (.ok (b, window), r', s')) :
    r.notedRead range s = [⟨range, s'.ledger, window⟩] := by
  unfold notedRead
  rw [hread]
  dsimp only
  rw [hne, if_neg Bool.false_ne_true]

/-- A read is written down, or it is not remembered. -/
theorem Reads.readRange (h : Reads σ r notes) (range : ByteRange) (s : Site σ) :
    Reads σ (r.readRange range s).2.1 (r.notedRead range s ++ notes) := by
  rcases hread : r.readRange range s with ⟨e | ⟨b, window⟩, r', s'⟩
  · unfold notedRead
    rw [hread]
    exact h.between (readRange_remembers hread)
  · cases hempty : range.isEmpty with
    | true =>
      have hsame := readRange_empty_remembers (r := r) hempty s
      unfold notedRead
      rw [hread] at hsame ⊢
      dsimp only
      rw [hempty, if_pos rfl]
      exact h.between hsame
    | false =>
      rw [notedRead_of_readRange hempty hread]
      exact h.read hempty hread

/-- A use of a reader is written down, or it is not remembered. -/
theorem Reads.use (h : Reads σ r notes) (u : Use) (s : Site σ) :
    Reads σ (r.use s u).2.1 (r.noted s u ++ notes) := by
  cases u with
  | read range =>
    have hread := h.readRange range s
    unfold Reader.use Reader.read noted
    dsimp only
    rcases hr : r.readRange range s with ⟨e | ⟨b, window⟩, r', s'⟩
    · rw [hr] at hread
      exact hread
    · rw [hr] at hread
      exact hread.between (readAhead_remembers r' window s')
  | prebuffer range => exact h.between (prebuffer_remembers r range s)
  | readRange range => exact h.readRange range s
  | prefetch j n => exact h.between ⟨rfl, rfl, jobRoutine_layout.advance j n r.fetcher s⟩
  | settle j => exact h.between ⟨rfl, rfl, jobRoutine_layout.finish j r.fetcher s⟩

/-- Any uses of a reader are reads with nothing to be remembered in between. -/
theorem Reads.useAll (uses : List Use) (h : Reads σ r notes) (s : Site σ) :
    Reads σ (useAll uses r s).2.1 (notedAll uses r s notes) := by
  induction uses generalizing r s notes with
  | nil => exact h
  | cons u uses ih => exact ih (h.use u s) (r.use s u).2.2

end Reads

end Reader

/-! ### The memory in words -/

namespace ReadAhead

/-- What a reader remembers of the reads so far, in words. -/
structure Words where
  nextOffset : Option UInt64 := none
  streak : UInt32 := 0
  dispatchedTo : UInt32 := 0

namespace Words

/-- The numbers that the words stand for. -/
def value (m : Words) : ReadAhead where
  nextOffset := m.nextOffset.map UInt64.toNat
  streak := m.streak.toNat
  dispatchedTo := m.dispatchedTo.toNat

/-- The sum of two words, or the largest word if it does not fit. -/
def saturatingAdd (a b : UInt32) : UInt32 := if a + b < a then 4294967295 else a + b

/-- The memory after one more read, as far as the streak goes. -/
def follow (m : Words) (start stop : UInt64) : Words :=
  if m.nextOffset = some start then
    { m with nextOffset := some stop, streak := saturatingAdd m.streak 1 }
  else { nextOffset := some stop }

/-- The chunk after the last one to read ahead. -/
def windowEnd (chunks count last : UInt32) : UInt32 :=
  min (saturatingAdd (saturatingAdd last 1) chunks) count

/-- The bounds of the window after a read, and the memory. The plain addition wraps around. -/
def note (m : Words) (config : ReaderConfig) (c count : UInt32) (start stop : UInt64) :
    (UInt32 × UInt32) × Words :=
  let m := m.follow start stop
  if m.streak < config.readaheadAfter then ((0, 0), m)
  else
    let last := Layout.Words.index c (stop - 1)
    let upTo := windowEnd config.readaheadChunks count last
    ((max (last + 1) m.dispatchedTo, upTo), { m with dispatchedTo := max m.dispatchedTo upTo })

variable {m : Words} {config : ReaderConfig} {c count last : UInt32} {size start stop : UInt64}
  {range : ByteRange} {a b : UInt32}

theorem saturatingAdd_toNat : (saturatingAdd a b).toNat = min (a.toNat + b.toNat) maxStreak := by
  have ha := a.toNat_lt
  have hb := b.toNat_lt
  have hmax : maxStreak = 2 ^ 32 - 1 := rfl
  have hsum := UInt32.toNat_add a b
  unfold saturatingAdd
  by_cases h : a + b < a
  · have hlt := UInt32.lt_iff_toNat_lt.1 h
    rw [if_pos h, hmax]
    show 4294967295 = _
    omega
  · have hge := mt UInt32.lt_iff_toNat_lt.2 h
    rw [if_neg h, hmax]
    omega

/-- The streak in words is the streak. -/
theorem follow_value (hstart : range.start = start.toNat) (hstop : range.stop = stop.toNat) :
    (m.follow start stop).value = m.value.follow range := by
  have heq : m.nextOffset = some start ↔ m.value.nextOffset = some range.start := by
    unfold value
    dsimp only
    rw [hstart]
    cases m.nextOffset with
    | none => exact ⟨nofun, nofun⟩
    | some offset => simp only [Option.map_some, Option.some.injEq, UInt64.toNat_inj]
  unfold follow ReadAhead.follow
  by_cases h : m.nextOffset = some start
  · rw [if_pos h, if_pos (heq.1 h), hstop]
    unfold value
    dsimp only
    rw [saturatingAdd_toNat]
    rfl
  · rw [if_neg h, if_neg (mt heq.2 h), hstop]
    rfl

/-- The two sums that stop at the largest word lose nothing once they are cut to the number of
chunks. -/
theorem windowEnd_toNat (chunks : UInt32) : (windowEnd chunks count last).toNat =
    min (last.toNat + 1 + chunks.toNat) count.toNat := by
  have hcount := count.toNat_lt
  have hmax : maxStreak = 2 ^ 32 - 1 := rfl
  unfold windowEnd
  rw [UInt32.toNat_min, saturatingAdd_toNat, saturatingAdd_toNat, UInt32.toNat_one]
  omega

/-- The last chunk of a read in words, and the one after it: nothing wraps around. -/
theorem last_toNat {l : Layout} (hl : Layout.ofSizes size.toNat c = .ok l)
    (hstop : range.stop = stop.toNat) (hin : range.start < range.stop ∧ range.stop ≤ l.totalSize) :
    (Layout.Words.index c (stop - 1)).toNat = (range.stop - 1) / l.chunkSize ∧
      (Layout.Words.index c (stop - 1) + 1).toNat = (range.stop - 1) / l.chunkSize + 1 := by
  obtain ⟨hsize, hc⟩ := Layout.ofSizes_eq_ok_iff.1 hl
  have hone : 1 ≤ stop := by
    rw [UInt64.le_iff_toNat_le, UInt64.toNat_one]
    omega
  have hfinal : (stop - 1).toNat = range.stop - 1 := by
    rw [UInt64.toNat_sub_of_le _ _ hone, hstop]
    rfl
  have hlt : stop - 1 < size := by
    rw [UInt64.lt_iff_toNat_lt, hfinal, ← hsize]
    omega
  rw [Layout.Words.index_toNat hl hlt, Layout.Words.index_succ_toNat hl hlt, hfinal, hc]
  exact ⟨rfl, rfl⟩

/-- What is decided in words is what is decided. -/
theorem note_value {r : Reader} (hon : r.config.readaheadChunks ≠ 0)
    (hl : Layout.ofSizes size.toNat c = .ok r.fetcher.layout)
    (hcount : count.toNat = r.fetcher.layout.chunkCount)
    (hstart : range.start = start.toNat) (hstop : range.stop = stop.toNat)
    (hin : range.start < range.stop ∧ range.stop ≤ r.fetcher.layout.totalSize)
    (hm : m.value = r.ahead) (g : Ledger) :
    (m.note r.config c count start stop).2.value = (r.noteRead range g).2.ahead ∧
      (r.noteRead range g).1 = (List.range'
        (m.note r.config c count start stop).1.1.toNat
        ((m.note r.config c count start stop).1.2.toNat -
          (m.note r.config c count start stop).1.1.toNat)).filter
        fun i => g.state i ≠ .verified := by
  have hfollow : (m.follow start stop).value = r.ahead.follow range := by
    rw [follow_value hstart hstop, hm]
  obtain ⟨hlast, hnext⟩ := last_toNat hl hstop hin
  have hend : (windowEnd r.config.readaheadChunks count
      (Layout.Words.index c (stop - 1))).toNat =
        r.windowEnd ((range.stop - 1) / r.fetcher.layout.chunkSize) := by
    rw [windowEnd_toNat, hlast, hcount]
    rfl
  have hearly : (m.follow start stop).streak < r.config.readaheadAfter ↔
      (r.ahead.follow range).streak < r.config.readaheadAfter.toNat := by
    rw [UInt32.lt_iff_toNat_lt, ← hfollow]
    rfl
  rw [Reader.noteRead_eq hon hin]
  unfold note
  dsimp only
  by_cases h : (m.follow start stop).streak < r.config.readaheadAfter
  · rw [if_pos h, if_pos (hearly.1 h)]
    exact ⟨hfollow, rfl⟩
  · rw [if_neg h, if_neg (mt hearly.2 h), ← hfollow]
    dsimp only [value]
    rw [UInt32.toNat_max, UInt32.toNat_max, hend, hnext]
    exact ⟨rfl, rfl⟩

/-- What a reader remembers fits in words. -/
theorem exists_value {a : ReadAhead} (hnext : ∀ k, a.nextOffset = some k → k < UInt64.size)
    (hstreak : a.streak < UInt32.size) (hmark : a.dispatchedTo < UInt32.size) :
    ∃ m : Words, m.value = a := by
  refine ⟨⟨a.nextOffset.map UInt64.ofNat, UInt32.ofNat a.streak, UInt32.ofNat a.dispatchedTo⟩, ?_⟩
  obtain ⟨next, streak, mark⟩ := a
  unfold value
  dsimp only at *
  rw [UInt32.toNat_ofNat_of_lt' hstreak, UInt32.toNat_ofNat_of_lt' hmark]
  cases next with
  | none => rfl
  | some k =>
    simp only [Option.map_some]
    rw [UInt64.toNat_ofNat_of_lt' (hnext k rfl)]

end Words
end ReadAhead

/-! ### The promised window -/

namespace Reader

open ReadAhead (Words)

variable {σ : Type} [RangeSource σ] {r r' : Reader} {notes : List Note} {range : ByteRange}
  {s s' : Site σ} {b : Bytes} {window : List Nat}

/-- What was handed out before in this streak is not handed out again. -/
theorem not_mem_of_handed {l : Layout} {c : ReaderConfig} {a : ReadAhead} {n m : Note}
    (h : Remembered l c a notes) {i : Nat}
    (hnow : ¬ (0 < streak (n :: notes) ∧ (turn? l c i notes).isSome = true))
    (hm : m ∈ notes.take (streak (n :: notes))) : i ∉ m.window := by
  intro hi
  by_cases hpos : 0 < streak (n :: notes)
  · rw [streak_of_pos hpos] at hm
    exact hnow ⟨hpos, h.handed m hm i hi⟩
  · rw [Nat.eq_zero_of_not_pos hpos] at hm
    exact nomatch hm

/-- The turn of each chunk within reach of a read that is late enough has come. -/
theorem exists_turn {l : Layout} {c : ReaderConfig} {a : ReadAhead} {n : Note}
    (h : Remembered l c a (n :: notes)) (hdue : Due c (n :: notes)) {i : Nat}
    (hreach : n.Reaches l c i) : ∃ m ∈ currentStreak (n :: notes),
      turn? l c i (n :: notes) = some m ∧ (m.ledger.state i = .verified ∨ i ∈ m.window) := by
  obtain ⟨m, hm⟩ := Option.isSome_iff_exists.1 (turn?_isSome_iff.2 (.inr ⟨hdue, hreach⟩))
  exact ⟨m, (mem_of_turn? hm).1, hm, h.served i m hm⟩

theorem Remembered.exists_words {l : Layout} {c : ReaderConfig} {a : ReadAhead}
    (h : Remembered l c a notes) : ∃ m : Words, m.value = a := by
  have hcount : l.chunkCount < UInt32.size := l.chunkCount_lt
  refine Words.exists_value (fun k hk => ?_) ?_ (Nat.lt_of_le_of_lt h.mark_le hcount)
  · rw [h.next] at hk
    obtain ⟨n, hn, rfl⟩ := Option.map_eq_some_iff.1 hk
    exact Nat.lt_of_le_of_lt (h.inside n hn).2 l.totalSize_lt
  · rw [h.streak]
    exact Nat.lt_of_le_of_lt (Nat.min_le_right _ _) (by decide)

/-- A window with nothing in it leads to no job. -/
theorem read_of_nil (hread : r.readRange range s = (.ok (b, []), r', s')) :
    r.read range s = (.ok b, r', s') := by
  unfold Reader.read
  rw [hread]
  rfl

/-- The job for a window is run with the reader's own fetcher, and is the latest one then. -/
theorem read_of_startJob {j : Job} (hread : r.readRange range s = (.ok (b, window), r', s'))
    (hne : window ≠ []) (hj : r'.startJob window s'.ledger = .ok j) : r.read range s =
      (.ok b, { r' with fetcher := (j.run r'.fetcher s').2.1,
                        latest := some (j.run r'.fetcher s').1 }, (j.run r'.fetcher s').2.2) := by
  have hempty : ¬ window.isEmpty = true := fun h => hne (List.isEmpty_iff.1 h)
  unfold Reader.read readAhead
  rw [hread]
  dsimp only
  rw [if_neg hempty, hj]
  rfl

omit [RangeSource σ] in
/-- Chunks of the file make a job, which has to do, in ascending order, those of them that are not
verified. -/
theorem exists_job (hwindow : ∀ i ∈ window, i < r.fetcher.layout.chunkCount) (g : Ledger) :
    ∃ j, r.startJob window g = .ok j ∧ j.queue.Pairwise (· < ·) ∧
      ∀ i, i ∈ j.queue ↔ i ∈ window ∧ g.state i ≠ .verified := by
  obtain ⟨j, hj, hqueue, -⟩ := Job.create_of_inside g hwindow
  refine ⟨j, hj, hqueue ▸ Job.pending_sorted _ _ _, fun i => ?_⟩
  rw [hqueue, Job.mem_pending_iff]
  exact ⟨fun hi => hi.2, fun hi => ⟨hwindow i hi.1, hi⟩⟩

/-- **Reading ahead.** Take any reads of a reader that reads ahead, with anything done in between,
and one more read that gives out bytes. If there are chunks to read ahead, the read runs a job
over just these with the reader's own fetcher, in ascending order, and else it runs none. There
are such chunks only if the read is late enough in its streak. They come after the last chunk of
the read, within reach and in the file, they are not verified when they are handed out, there is
none twice among them and none that was handed out before in this streak; and a job for them can
be had, also later. If the read is late enough, the turn of each chunk within reach has come at
some read of the streak, and then the chunk was verified or it was handed out. What the reader
remembers fits in words, and what it decides is what it decides in words, where the plain
addition, one to the last chunk, does not wrap around. And any uses of the reader are such reads,
those that are noted. -/
theorem reads_ahead (h : Reads σ r notes) (hon : r.config.readaheadChunks ≠ 0)
    (hne : range.isEmpty = false) (hread : r.readRange range s = (.ok (b, window), r', s')) :
    let l := r.fetcher.layout
    let n : Note := ⟨range, s'.ledger, window⟩
    ((window = [] → r.read range s = (.ok b, r', s')) ∧
      (window ≠ [] → ∃ j, r'.startJob window s'.ledger = .ok j ∧ j.queue = window ∧
        r.read range s = (.ok b, { r' with fetcher := (j.run r'.fetcher s').2.1,
                                           latest := some (j.run r'.fetcher s').1 },
          (j.run r'.fetcher s').2.2))) ∧
    (window ≠ [] → r.config.readaheadAfter.toNat ≤ streak (n :: notes)) ∧
    (∀ i ∈ window, n.last l < i ∧ i ≤ n.last l + r.config.readaheadChunks.toNat ∧
      i < l.chunkCount ∧ s'.ledger.state i ≠ .verified) ∧
    (window.Nodup ∧ ∀ m ∈ notes.take (streak (n :: notes)), ∀ i ∈ window, i ∉ m.window) ∧
    (∀ g, ∃ j, r'.startJob window g = .ok j ∧
      ∀ i, i ∈ j.queue ↔ i ∈ window ∧ g.state i ≠ .verified) ∧
    (r.config.readaheadAfter.toNat ≤ streak (n :: notes) →
      ∀ i, n.last l < i → i ≤ n.last l + r.config.readaheadChunks.toNat → i < l.chunkCount →
        ∃ m ∈ currentStreak (n :: notes), turn? l r.config i (n :: notes) = some m ∧
          (m.ledger.state i = .verified ∨ i ∈ m.window)) ∧
    ((∃ m : Words, m.value = r.ahead) ∧
      ∀ (m : Words) (size : UInt64) (c count : UInt32) (start stop : UInt64),
        m.value = r.ahead → Layout.ofSizes size.toNat c = .ok l → count.toNat = l.chunkCount →
        range.start = start.toNat → range.stop = stop.toNat →
          (m.note r.config c count start stop).2.value = r'.ahead ∧
          window = (List.range' (m.note r.config c count start stop).1.1.toNat
            ((m.note r.config c count start stop).1.2.toNat -
              (m.note r.config c count start stop).1.1.toNat)).filter
            (fun i => s'.ledger.state i ≠ .verified) ∧
          (Layout.Words.index c (stop - 1)).toNat = n.last l ∧
          (Layout.Words.index c (stop - 1) + 1).toNat = n.last l + 1) ∧
    (r.noted s (.read range) = [n] ∧
      ∀ uses, Reads σ (useAll uses r s).2.1 (notedAll uses r s notes)) := by
  intro l n
  have hbefore := h.remembered hon
  obtain ⟨hin, hnote, hsame, hahead⟩ := noteRead_of_readRange hne hread
  have hnow : Remembered l r.config (r.noteRead range s'.ledger).2.ahead (n :: notes) :=
    Remembered.noteRead (n := n) hon hin hbefore hnote
  have hmem := mem_window_iff (n := n) hon hin hbefore hnote
  have hsorted := window_sorted (n := n) hon hin hbefore hnote
  have hfit : ∀ i ∈ window, n.last l < i ∧ i ≤ n.last l + r.config.readaheadChunks.toNat ∧
      i < l.chunkCount ∧ s'.ledger.state i ≠ .verified := by
    intro i hi
    obtain ⟨-, ⟨hlast, hup, hcount⟩, -, hstate⟩ := (hmem i).1 hi
    exact ⟨hlast, hup, hcount, hstate⟩
  have hinside : ∀ i ∈ window, i < r'.fetcher.layout.chunkCount := by
    have hlayout : r'.fetcher.layout = l := hsame.layout
    rw [hlayout]
    exact fun i hi => (hfit i hi).2.2.1
  refine ⟨⟨?_, fun hwindow => ?_⟩, fun hwindow => ?_, hfit, ⟨hsorted.imp fun hlt => Nat.ne_of_lt hlt,
    fun m hm i hi => ?_⟩, fun g => ?_, fun hdue i hlast hup hcount => ?_, ⟨hbefore.exists_words,
    fun m size c count start stop hm hl hcount hstart hstop => ?_⟩, ?_, fun uses => h.useAll uses s⟩
  · rintro rfl
    exact read_of_nil hread
  · -- None of them is verified yet, so the job has to do all of them.
    obtain ⟨j, hj, hascending, hqueue⟩ := exists_job hinside s'.ledger
    have hall : j.queue = window := hascending.eq_of_mem_iff hsorted fun i =>
      (hqueue i).trans (and_iff_left_of_imp fun hi => (hfit i hi).2.2.2)
    exact ⟨j, hj, hall, read_of_startJob hread hwindow hj⟩
  · obtain ⟨i, hi⟩ := List.exists_mem_of_ne_nil _ hwindow
    exact ((hmem i).1 hi).1
  · exact not_mem_of_handed hbefore ((hmem i).1 hi).2.2.1 hm
  · obtain ⟨j, hj, -, hqueue⟩ := exists_job hinside g
    exact ⟨j, hj, hqueue⟩
  · exact exists_turn hnow hdue ⟨hlast, hup, hcount⟩
  · obtain ⟨hvalue, hwindow⟩ := Words.note_value hon hl hcount hstart hstop hin hm s'.ledger
    exact ⟨hvalue.trans hahead.symm, hnote.symm.trans hwindow, Words.last_toNat hl hstop hin⟩
  · exact notedRead_of_readRange hne hread

/-- Three chunks of one byte. -/
def threeChunks : Tree :=
  ⟨⟨3, 1, Nat.one_pos, by decide, by decide⟩,
    (heapOfLeaves (List.replicate 3 Digest.padding)).toArray, List.replicate 3 Digest.padding,
    rfl, rfl⟩

/-- The bits of the first two chunks. -/
def firstTwo : Bits 3 := ((Bits.zeros 3).set 0 true).set 1 true

/-- A site where the first two chunks are verified. -/
def twoOfThree : Site (Logged ScriptedSource) where
  ledger := { chunkCount := 3, present := firstTwo, valid := firstTwo }
  disk := { names := [("d", .file 0)], files := [[97, 98, 99]] }
  source := ⟨{ bytes := [97, 98, 99] }, []⟩

/-- A reader that reads one chunk ahead from the second read of a streak on. -/
def eagerReader : Reader where
  fetcher := ⟨threeChunks, ⟨⟨"d", .file 0, true⟩, 3, false⟩, {}, 0⟩
  config := { recheckLocal := false, readaheadChunks := 1, readaheadAfter := 1 }

/-- The second of two reads in a row runs a job over the third chunk. -/
theorem reads_ahead_three : ∃ r' s', eagerReader.readRange ⟨0, 1, by decide⟩ twoOfThree =
      (.ok ([97], []), r', s') ∧
    ∃ r'' s'', r'.readRange ⟨1, 2, by decide⟩ s' = (.ok ([98], [2]), r'', s'') ∧
      ∃ j, r''.startJob [2] s''.ledger = .ok j ∧ j.queue = [2] ∧
        (r'.read ⟨1, 2, by decide⟩ s').2.1.latest = some (j.run r''.fetcher s'').1 := by
  have hcreate : Reader.create { remoteUrl := "", totalSize := 3 } threeChunks twoOfThree.ledger
      ⟨⟨"d", .file 0, true⟩, 3, false⟩ {} eagerReader.config = .ok eagerReader := rfl
  have hon : (eagerReader.readRange ⟨0, 1, by decide⟩ twoOfThree).2.1.config.readaheadChunks ≠ 0 := by
    decide
  have hfirst : (eagerReader.readRange ⟨0, 1, by decide⟩ twoOfThree).1 = .ok ([97], []) := rfl
  have hsecond : ((eagerReader.readRange ⟨0, 1, by decide⟩ twoOfThree).2.1.readRange
      ⟨1, 2, by decide⟩ (eagerReader.readRange ⟨0, 1, by decide⟩ twoOfThree).2.2).1 =
        .ok ([98], [2]) := rfl
  rcases hread : eagerReader.readRange ⟨0, 1, by decide⟩ twoOfThree with ⟨result, r', s'⟩
  rw [hread] at hon hfirst hsecond
  obtain rfl : result = .ok ([97], []) := hfirst
  rcases hread' : r'.readRange ⟨1, 2, by decide⟩ s' with ⟨result', r'', s''⟩
  rw [hread'] at hsecond
  obtain rfl : result' = .ok ([98], [2]) := hsecond
  have hreads := (Reads.created (σ := Logged ScriptedSource) hcreate).read rfl hread
  obtain ⟨⟨-, hjob⟩, -⟩ := reads_ahead hreads hon rfl hread'
  obtain ⟨j, hj, hqueue, hrun⟩ := hjob (List.cons_ne_nil 2 [])
  exact ⟨r', s', rfl, r'', s'', hread', j, hj, hqueue, congrArg (fun given => given.2.1.latest) hrun⟩

end Reader
end VerifiedCopy
