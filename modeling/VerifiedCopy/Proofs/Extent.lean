/-
# A sidecar says how long it is

The header of a sidecar fixes the length of the whole: that of a tree by the number of
leaves and the word of flags (`Tree.extent`), that of a ledger by the number of chunks
(`Ledger.extent`). So no string that is accepted is the beginning of another one. What is
left of a sidecar whose end is cut off, and a sidecar with something behind it, is refused,
also if it happens to end in its own checksum.

Key definitions: `Sidecar.Delimited`, `Sidecar.Whole`, `Tree.extent`, `Ledger.extent`.
Key theorems: `Delimited.whole`, `Tree.delimited`, `Ledger.delimited`, `sidecars_whole`.
-/
import VerifiedCopy.Proofs.Damage
import VerifiedCopy.Proofs.Desk.Restored

namespace VerifiedCopy

namespace Sidecar

variable {α : Type} {read : Bytes → Except Error α} {extent : Bytes → Nat} {n : Nat}
  {b b' : Bytes} {x x' : α}

/-- A reader refuses with format errors, and the first `n` bytes of what it accepts tell how
long it is. -/
structure Delimited (n : Nat) (extent : Bytes → Nat) (read : Bytes → Except Error α) : Prop where
  refuses : ∀ b, Refuses (read b)
  header : ∀ {b x}, read b = .ok x → n ≤ b.length
  length : ∀ {b x}, read b = .ok x → b.length = extent (b.take n)

/-- No string that a reader accepts is the beginning of another one; it is refused without its
end, and with something behind it. -/
structure Whole (read : Bytes → Except Error α) : Prop where
  eq_of_prefix : ∀ {b b' x x'}, read b = .ok x → read b' = .ok x' → b <+: b' → b = b'
  truncated : ∀ {b x}, read b = .ok x → ∀ k < b.length,
    ∃ text, read (b.take k) = .error (.format text)
  extended : ∀ {b x}, read b = .ok x → ∀ more ≠ [],
    ∃ text, read (b ++ more) = .error (.format text)

namespace Delimited

variable (h : Delimited n extent read)

include h

/-- The header of the shorter string is that of the longer one. -/
theorem eq_of_prefix (hb : read b = .ok x) (hb' : read b' = .ok x') (hp : b <+: b') : b = b' := by
  have hhead : b'.take n = b.take n := by
    obtain ⟨more, rfl⟩ := hp
    exact List.take_append_of_le_length (h.header hb)
  exact hp.eq_of_length (by rw [h.length hb, h.length hb', hhead])

/-- What is not accepted is refused for its format. -/
theorem refused (hb : ∀ x, read b ≠ .ok x) : ∃ text, read b = .error (.format text) := by
  cases hr : read b with
  | ok x => exact absurd hr (hb x)
  | error e =>
    obtain ⟨text, rfl⟩ := h.refuses b e hr
    exact ⟨text, rfl⟩

theorem whole : Whole read where
  eq_of_prefix := h.eq_of_prefix
  truncated := by
    intro b x hb k hk
    refine h.refused fun x' hx' => ?_
    have heq := congrArg List.length (h.eq_of_prefix hx' hb (List.take_prefix k b))
    rw [List.length_take] at heq
    omega
  extended := by
    intro b x hb more hmore
    refine h.refused fun x' hx' => hmore ?_
    have heq := congrArg List.length (h.eq_of_prefix hb hx' (List.prefix_append b more))
    rw [List.length_append] at heq
    exact List.eq_nil_of_length_eq_zero (by omega)

end Delimited
end Sidecar

/-! ### Trees -/

namespace Tree

variable {b : Bytes} {t : Tree}

/-- The length of a sidecar with the given header: the number of leaves stands at 25, the word of
flags at 29. -/
def extent (head : Bytes) : Nat :=
  let leafCount := Bytes.toNatLE (head.slice 25 4)
  let flags := Bytes.toNatLE (head.slice 29 4)
  headerLength + 32 * (leafCount + if flags % 2 = 1 then capacityFor leafCount - 1 else 0) + 4

/-- The number of leaves stands behind the two sizes. -/
theorem leafCount_of_body (t : Tree) (f : Nat) :
    Bytes.toNatLE ((Sidecar.withChecksum (t.body f)).slice 25 4) = t.leafCount := by
  let front := Bytes.ofText magic ++ [0] ++ Bytes.ofNatLE 4 1
    ++ Bytes.ofNatLE 8 t.layout.totalSize ++ Bytes.ofNatLE 4 t.layout.chunkSize
  let back := Bytes.ofNatLE 4 f ++ (digestBytes t.leaves ++ (t.upperBytes f
    ++ Checksum.trailer (t.body f)))
  have hsplit : Sidecar.withChecksum (t.body f) =
      front ++ (Bytes.ofNatLE 4 t.leafCount ++ back) := by
    show front ++ Bytes.ofNatLE 4 t.leafCount ++ Bytes.ofNatLE 4 f ++ digestBytes t.leaves
      ++ t.upperBytes f ++ Checksum.trailer (t.body f) = _
    simp only [List.append_assoc, back]
  have hfront : front.length = 25 := by
    simp only [front, List.length_append, Bytes.length_ofNatLE, length_magic]
    rfl
  have hlt : t.leafCount < Nat.pow 256 4 := t.layout.chunkCount_lt
  exact Bytes.toNatLE_slice hsplit hfront hlt

theorem delimited : Sidecar.Delimited headerLength extent decode where
  refuses := decode_refuses
  header := by
    intro b t h
    obtain ⟨f, -, rfl⟩ := decode_eq_ok_iff.1 h
    have hlen := t.length_body f
    rw [Sidecar.withChecksum, List.length_append]
    omega
  length := by
    intro b t h
    obtain ⟨f, hf, rfl⟩ := decode_eq_ok_iff.1 h
    have hcount := t.leafCount_of_body f
    have hflags := t.flags_of_body hf
    unfold extent
    rw [Bytes.slice_take _ (by decide), Bytes.slice_take _ (by decide), hcount, hflags,
      Sidecar.withChecksum, List.length_append, Checksum.length_trailer, length_body, upperCount]
    dsimp only
    omega

end Tree

/-! ### Ledgers -/

namespace Ledger

variable {b : Bytes} {g : Ledger}

/-- The length of a sidecar with the given header: the number of chunks stands at 13. -/
def extent (head : Bytes) : Nat :=
  headerLength + 2 * bitBytes (Bytes.toNatLE (head.slice 13 4)) + 4

/-- The number of chunks stands at the end of the header. -/
theorem chunkCount_of_snapshot (hg : g.chunkCount < UInt32.size) :
    Bytes.toNatLE (g.snapshot.slice 13 4) = g.chunkCount := by
  let front := Bytes.ofText magic ++ [0] ++ Bytes.ofNatLE 4 1
  let back := g.present.bytes ++ (g.valid.bytes ++ Checksum.trailer g.body)
  have hsplit : g.snapshot = front ++ (Bytes.ofNatLE 4 g.chunkCount ++ back) := by
    show front ++ Bytes.ofNatLE 4 g.chunkCount ++ g.present.bytes ++ g.valid.bytes
      ++ Checksum.trailer g.body = _
    simp only [List.append_assoc, back]
  have hfront : front.length = 13 := by
    simp only [front, List.length_append, Bytes.length_ofNatLE, length_magic]
    rfl
  have hlt : g.chunkCount < Nat.pow 256 4 := hg
  exact Bytes.toNatLE_slice hsplit hfront hlt

theorem delimited : Sidecar.Delimited headerLength extent restore where
  refuses := restore_refuses
  header := by
    intro b g h
    obtain ⟨rfl, -⟩ := restore_eq_ok_iff.1 h
    have hlen := g.length_body
    rw [snapshot, Sidecar.withChecksum, List.length_append]
    omega
  length := by
    intro b g h
    obtain ⟨rfl, hg, -⟩ := restore_eq_ok_iff.1 h
    unfold extent
    rw [Bytes.slice_take _ (by decide), chunkCount_of_snapshot hg, snapshot, Sidecar.withChecksum,
      List.length_append, Checksum.length_trailer, length_body]

end Ledger

/-- **No sidecar is the beginning of another.** The length of a sidecar that is accepted is the one
that its header tells, for trees and for ledgers. So an accepted string is no proper beginning of
another accepted one, and with its end cut off, or with anything behind it, it is refused with a
format error, whatever the last four bytes are then. -/
theorem sidecars_whole :
    (∀ b t, Tree.decode b = .ok t → 33 ≤ b.length ∧ b.length = Tree.extent (b.take 33)) ∧
    (∀ b g, Ledger.restore b = .ok g → 17 ≤ b.length ∧ b.length = Ledger.extent (b.take 17)) ∧
    Sidecar.Whole Tree.decode ∧ Sidecar.Whole Ledger.restore :=
  ⟨fun _ _ h => ⟨Tree.delimited.header h, Tree.delimited.length h⟩,
    fun _ _ h => ⟨Ledger.delimited.header h, Ledger.delimited.length h⟩,
    Tree.delimited.whole, Ledger.delimited.whole⟩

/-- A sidecar that is closed by a checksum once more has a checksum that is right, and is refused
all the same. -/
theorem sidecars_whole_closed_twice :
    (Tree.decode oneLeaf.encode = .ok oneLeaf ∧
      Sidecar.checkedBody "tree" Tree.headerLength (Sidecar.withChecksum oneLeaf.encode) =
        .ok oneLeaf.encode ∧
      ∃ text, Tree.decode (Sidecar.withChecksum oneLeaf.encode) = .error (.format text)) ∧
    Ledger.restore (Ledger.empty 1).snapshot = .ok (Ledger.empty 1) ∧
      Sidecar.checkedBody "state" Ledger.headerLength
        (Sidecar.withChecksum (Ledger.empty 1).snapshot) = .ok (Ledger.empty 1).snapshot ∧
      ∃ text, Ledger.restore (Sidecar.withChecksum (Ledger.empty 1).snapshot) =
        .error (.format text) := by
  obtain ⟨htreeLength, hledgerLength, htrees, hledgers⟩ := sidecars_whole
  have htree : Tree.decode oneLeaf.encode = .ok oneLeaf := oneLeaf.decode_body (by decide)
  have hledger : Ledger.restore (Ledger.empty 1).snapshot = .ok (Ledger.empty 1) :=
    Ledger.restore_eq_ok_iff.2 ⟨rfl, by decide, rfl, rfl, rfl⟩
  have hne : ∀ b, Checksum.trailer b ≠ [] := fun b =>
    List.ne_nil_of_length_pos (by rw [Checksum.length_trailer]; decide)
  exact ⟨⟨htree, Sidecar.checkedBody_eq_ok_iff.2 ⟨rfl, (htreeLength _ _ htree).1⟩,
      htrees.extended htree _ (hne _)⟩,
    hledger, Sidecar.checkedBody_eq_ok_iff.2 ⟨rfl, (hledgerLength _ _ hledger).1⟩,
      hledgers.extended hledger _ (hne _)⟩

end VerifiedCopy
