/-
# The sidecar of a tree determines the tree, and is determined by it

A string of bytes is accepted as the sidecar of a tree exactly if it is what is
written for the tree with some word of flags (`decode_eq_ok_iff`); anything else
is refused with a format error (`decode_refuses`). The lowest flag alone decides
whether the upper nodes are there, and if they are, each has to be the digest of
its children.

Key theorems: `firstMismatch_eq_none_iff`, `decode_eq_ok_iff`, `decode_refuses`,
`decode_spec`.
-/
import VerifiedCopy.Proofs.Sidecar
import VerifiedCopy.Proofs.Tree.Rows
import VerifiedCopy.Tree.Sidecar

namespace VerifiedCopy
namespace Tree

open Sidecar (Refuses)

variable {t : Tree} {b : Bytes}

theorem length_digestBytes (ds : List Digest) : (digestBytes ds).length = 32 * ds.length := by
  unfold digestBytes
  induction ds with
  | nil => rfl
  | cons d ds ih =>
    rw [List.flatMap_cons, List.length_append, d.length_bytes, ih, List.length_cons]
    omega

/-- Stored nodes pass if they are the first of the computed ones. -/
theorem firstMismatch_eq_none_iff : ∀ {i : Nat} {stored computed : List Digest},
    stored.length ≤ computed.length →
      (firstMismatch i stored computed = none ↔ stored = computed.take stored.length)
  | i, [], computed, _ => by
    cases computed <;> exact ⟨fun _ => rfl, fun _ => rfl⟩
  | i, s :: stored, c :: computed, h => by
    have ih := firstMismatch_eq_none_iff (i := i + 1) (Nat.le_of_succ_le_succ h)
    rw [List.length_cons, List.take_succ_cons, List.cons.injEq]
    unfold firstMismatch
    by_cases hsc : s = c
    · rw [if_pos hsc, ih]
      exact ⟨fun h => ⟨hsc, h⟩, fun h => h.2⟩
    · rw [if_neg hsc]
      exact ⟨(nomatch ·), fun h => absurd h.1 hsc⟩

theorem length_internal (t : Tree) : t.internal.length = capacityFor t.leafCount - 1 := by
  have hcap : capacityFor t.leafCount = Nat.pow 2 t.depth := rfl
  unfold internal offset capacity
  rw [List.length_take, t.length_nodes, two_pow_succ, hcap]
  omega

theorem length_magic : (Bytes.ofText magic).length = 8 := by decide +kernel

/-- Lists of digests of one length are determined by their bytes. -/
theorem digestBytes_injective {ds ds' : List Digest} (hlen : ds.length = ds'.length)
    (h : digestBytes ds = digestBytes ds') : ds = ds' := by
  have hds : Sidecar.takeDigests ds.length (digestBytes ds) = .ok (ds, []) :=
    Sidecar.takeDigests_eq_ok_iff.2 ⟨(List.append_nil _).symm, rfl⟩
  have hds' : Sidecar.takeDigests ds.length (digestBytes ds) = .ok (ds', []) :=
    Sidecar.takeDigests_eq_ok_iff.2 ⟨by rw [List.append_nil]; exact h, hlen.symm⟩
  rw [hds] at hds'
  exact congrArg Prod.fst (Except.ok.inj hds')

/-! ### What is accepted -/

/-- The bytes of the upper nodes, if a word of flags promises them. -/
def upperBytes (t : Tree) (flags : Nat) : Bytes :=
  if flags % 2 = 1 then digestBytes t.internal else []

/-- The number of upper nodes that a word of flags promises. -/
def upperCount (t : Tree) (flags : Nat) : Nat :=
  if flags % 2 = 1 then capacityFor t.leafCount - 1 else 0

theorem length_upperBytes (t : Tree) (flags : Nat) :
    (t.upperBytes flags).length = 32 * t.upperCount flags := by
  unfold upperBytes upperCount
  by_cases hf : flags % 2 = 1
  · rw [if_pos hf, if_pos hf, length_digestBytes, length_internal]
  · rw [if_neg hf, if_neg hf]
    rfl

/-- The stored upper nodes pass exactly if their bytes are those of the tree. -/
theorem upperBytes_eq_iff {flags : Nat} {stored : List Digest}
    (hlen : stored.length = t.upperCount flags) :
    firstMismatch 0 stored t.internal = none ↔ digestBytes stored = t.upperBytes flags := by
  unfold upperCount at hlen
  unfold upperBytes
  by_cases hf : flags % 2 = 1
  · rw [if_pos hf, ← t.length_internal] at hlen
    rw [if_pos hf, firstMismatch_eq_none_iff (Nat.le_of_eq hlen), hlen, List.take_length]
    exact ⟨fun h => by rw [h], digestBytes_injective hlen⟩
  · rw [if_neg hf] at hlen
    rw [if_neg hf, List.length_eq_zero_iff.1 hlen]
    exact ⟨fun _ => rfl, fun _ => by cases t.internal <;> rfl⟩

theorem length_header (t : Tree) (flags : Nat) : (t.header flags).length = headerLength := by
  unfold header
  simp only [List.length_append, Bytes.length_ofNatLE, length_magic]
  rfl

theorem body_eq (t : Tree) (flags : Nat) :
    t.body flags = t.header flags ++ (digestBytes t.leaves ++ t.upperBytes flags) := by
  rw [← List.append_assoc]
  rfl

theorem length_body (t : Tree) (flags : Nat) :
    (t.body flags).length = 32 * (t.leafCount + t.upperCount flags) + headerLength := by
  rw [body_eq, List.length_append, List.length_append, length_header, length_digestBytes,
    length_upperBytes, t.length_leaves]
  omega

/-- The upper nodes that are stored. -/
theorem exists_stored (t : Tree) (flags : Nat) :
    ∃ stored, digestBytes stored = t.upperBytes flags ∧ stored.length = t.upperCount flags := by
  unfold upperBytes upperCount
  by_cases hf : flags % 2 = 1
  · rw [if_pos hf, if_pos hf]
    exact ⟨t.internal, rfl, t.length_internal⟩
  · rw [if_neg hf, if_neg hf]
    exact ⟨[], rfl, rfl⟩

/-- What is accepted was written for the tree, with some flags. -/
theorem body_of_decode (h : decode b = .ok t) :
    ∃ f, f < UInt32.size ∧ b = Sidecar.withChecksum (t.body f) := by
  unfold decode at h
  obtain ⟨body, hbody, h⟩ := bind_eq_ok_iff.1 h
  obtain ⟨rest, hhead, h⟩ := bind_eq_ok_iff.1 h
  obtain ⟨⟨total, rest₁⟩, htotal, h⟩ := bind_eq_ok_iff.1 h
  obtain ⟨⟨chunk, rest₂⟩, hchunk, h⟩ := bind_eq_ok_iff.1 h
  obtain ⟨⟨count, rest₃⟩, hcount, h⟩ := bind_eq_ok_iff.1 h
  obtain ⟨⟨flags, rest₄⟩, hflags, h⟩ := bind_eq_ok_iff.1 h
  dsimp only at h
  cases hl : Layout.ofSizes total (UInt32.ofNat chunk) with
  | error e => rw [hl] at h; cases h
  | ok layout =>
    rw [hl] at h
    obtain ⟨_, ⟨⟩, h⟩ := bind_eq_ok_iff.1 h
    obtain ⟨hcc, h⟩ := refuse_eq_ok_iff.1 h
    obtain ⟨hlen, h⟩ := refuse_eq_ok_iff.1 h
    obtain ⟨⟨leaves, rest₅⟩, hleaves, h⟩ := bind_eq_ok_iff.1 h
    obtain ⟨tree, hbuild, h⟩ := bind_eq_ok_iff.1 h
    obtain ⟨⟨stored, rest₆⟩, hstored, h⟩ := bind_eq_ok_iff.1 h
    dsimp only at h
    have hmatch : firstMismatch 0 stored tree.internal = none ∧ tree = t := by
      split at h
      · cases h
      · rename_i hnone
        exact ⟨hnone, Except.ok.inj h⟩
    obtain ⟨hnone, rfl⟩ := hmatch
    -- What the readers took, written back.
    obtain ⟨rfl, -⟩ := Sidecar.checkedBody_eq_ok_iff.1 hbody
    have hbytes := (Sidecar.takeHeader_eq_ok_iff length_magic).1 hhead
    obtain ⟨-, rfl⟩ := Sidecar.takeNat_eq_ok_iff.1 htotal
    obtain ⟨hchunkLt, rfl⟩ := Sidecar.takeNat_eq_ok_iff.1 hchunk
    obtain ⟨-, rfl⟩ := Sidecar.takeNat_eq_ok_iff.1 hcount
    obtain ⟨hflagsLt, rfl⟩ := Sidecar.takeNat_eq_ok_iff.1 hflags
    obtain ⟨rfl, hleavesLen⟩ := Sidecar.takeDigests_eq_ok_iff.1 hleaves
    obtain ⟨rfl, hstoredLen⟩ := Sidecar.takeDigests_eq_ok_iff.1 hstored
    obtain ⟨htotal', hchunk'⟩ := Layout.ofSizes_eq_ok_iff.1 hl
    obtain ⟨rfl, rfl⟩ := build_eq_ok_iff.1 hbuild
    have hsize : chunk = tree.layout.chunkSize := by
      rw [hchunk', UInt32.toNat_ofNat']
      exact (Nat.mod_eq_of_lt hchunkLt).symm
    obtain rfl : tree.layout.chunkCount = count := Classical.not_not.1 hcc
    have hupper : digestBytes stored = tree.upperBytes flags :=
      (upperBytes_eq_iff hstoredLen).1 hnone
    have hsplit : body = tree.body flags ++ rest₆ := by
      rw [hbytes, body_eq, ← hupper, header, hsize, htotal']
      simp only [List.append_assoc, digestBytes]
    -- The promised length leaves nothing behind the nodes.
    have hnil : rest₆ = [] := by
      have hsum : 32 * (tree.leafCount + tree.upperCount flags) + headerLength = body.length :=
        Classical.not_not.1 hlen
      rw [hsplit, List.length_append, length_body] at hsum
      exact List.eq_nil_of_length_eq_zero (by omega)
    refine ⟨flags, hflagsLt, congrArg Sidecar.withChecksum ?_⟩
    rw [hsplit, hnil, List.append_nil]

/-- What is written for a tree is accepted, whatever the flags. -/
theorem decode_body (t : Tree) {f : Nat} (hf : f < UInt32.size) :
    decode (Sidecar.withChecksum (t.body f)) = .ok t := by
  have hlen := t.length_body f
  obtain ⟨stored, hstored, hcount⟩ := t.exists_stored f
  unfold decode
  refine bind_eq_ok_iff.2 ⟨t.body f, Sidecar.checkedBody_eq_ok_iff.2 ⟨rfl, by omega⟩, ?_⟩
  refine bind_eq_ok_iff.2 ⟨_, (Sidecar.takeHeader_eq_ok_iff length_magic).2 (by
    rw [body_eq, header, List.append_assoc, List.append_assoc, List.append_assoc,
      List.append_assoc]), ?_⟩
  refine bind_eq_ok_iff.2 ⟨(t.layout.totalSize, _), Sidecar.takeNat_eq_ok_iff.2
    ⟨t.layout.totalSize_lt, rfl⟩, ?_⟩
  refine bind_eq_ok_iff.2 ⟨(t.layout.chunkSize, _), Sidecar.takeNat_eq_ok_iff.2
    ⟨t.layout.chunkSize_lt, rfl⟩, ?_⟩
  refine bind_eq_ok_iff.2 ⟨(t.layout.chunkCount, _), Sidecar.takeNat_eq_ok_iff.2
    ⟨t.layout.chunkCount_lt, rfl⟩, ?_⟩
  refine bind_eq_ok_iff.2 ⟨(f, digestBytes t.leaves ++ t.upperBytes f),
    Sidecar.takeNat_eq_ok_iff.2 ⟨hf, rfl⟩, ?_⟩
  dsimp only
  rw [t.layout.ofSizes_self]
  refine bind_eq_ok_iff.2 ⟨t.layout, rfl, ?_⟩
  refine refuse_eq_ok_iff.2 ⟨fun h => h rfl, refuse_eq_ok_iff.2 ⟨fun h => h ?_, ?_⟩⟩
  · exact hlen.symm
  · refine bind_eq_ok_iff.2 ⟨(t.leaves, t.upperBytes f),
      Sidecar.takeDigests_eq_ok_iff.2 ⟨rfl, t.length_leaves⟩, ?_⟩
    refine bind_eq_ok_iff.2 ⟨t, build_eq_ok_iff.2 ⟨rfl, rfl⟩, ?_⟩
    refine bind_eq_ok_iff.2 ⟨(stored, []), Sidecar.takeDigests_eq_ok_iff.2
      ⟨by rw [List.append_nil]; exact hstored.symm, hcount⟩, ?_⟩
    dsimp only
    rw [(upperBytes_eq_iff hcount).2 hstored]
    rfl

theorem decode_eq_ok_iff : decode b = .ok t ↔
    ∃ f, f < UInt32.size ∧ b = Sidecar.withChecksum (t.body f) := by
  refine ⟨body_of_decode, ?_⟩
  rintro ⟨f, hf, rfl⟩
  exact t.decode_body hf

/-! ### What is refused -/

/-- Every refusal is a format error; the number of leaves was checked before the
tree is built. -/
theorem decode_refuses (b : Bytes) : Refuses (decode b) := by
  unfold decode
  refine (Sidecar.checkedBody_refuses "tree" headerLength b).bind fun body _ => ?_
  refine (Sidecar.takeHeader_refuses "tree" magic body).bind fun rest _ => ?_
  refine (Sidecar.takeNat_refuses 8 rest).bind fun total _ => ?_
  refine (Sidecar.takeNat_refuses 4 total.2).bind fun chunk _ => ?_
  refine (Sidecar.takeNat_refuses 4 chunk.2).bind fun count _ => ?_
  refine (Sidecar.takeNat_refuses 4 count.2).bind fun flags _ => ?_
  dsimp only
  cases Layout.ofSizes total.1 (UInt32.ofNat chunk.1) with
  | error e => exact fun e' he => ⟨_, (Except.error.inj he).symm⟩
  | ok layout =>
    refine .check fun hcc => .check fun _ => ?_
    refine (Sidecar.takeDigests_refuses count.1 flags.2).bind fun leaves hleaves => ?_
    obtain ⟨-, hlen⟩ := Sidecar.takeDigests_eq_ok_iff.1 hleaves
    have hcount : leaves.1.length = layout.chunkCount := hlen.trans (Classical.not_not.1 hcc).symm
    have hbuild : Refuses (build layout leaves.1) := by
      unfold build
      rw [dif_pos hcount]
      exact fun e he => nomatch he
    refine hbuild.bind fun tree _ => ?_
    refine (Sidecar.takeDigests_refuses _ leaves.2).bind fun stored _ => ?_
    intro e he
    split at he
    · cases he; exact ⟨_, rfl⟩
    · cases he

/-! ### Both directions -/

/-- The word of flags stands behind the three numbers of the header. -/
theorem flags_of_body (t : Tree) {f : Nat} (hf : f < UInt32.size) :
    Bytes.toNatLE ((Sidecar.withChecksum (t.body f)).slice 29 4) = f := by
  let front := Bytes.ofText magic ++ [0] ++ Bytes.ofNatLE 4 1
    ++ Bytes.ofNatLE 8 t.layout.totalSize ++ Bytes.ofNatLE 4 t.layout.chunkSize
    ++ Bytes.ofNatLE 4 t.layout.chunkCount
  let back := digestBytes t.leaves ++ (t.upperBytes f ++ Checksum.trailer (t.body f))
  have hsplit : Sidecar.withChecksum (t.body f) = front ++ (Bytes.ofNatLE 4 f ++ back) := by
    show front ++ Bytes.ofNatLE 4 f ++ digestBytes t.leaves ++ t.upperBytes f
      ++ Checksum.trailer (t.body f) = front ++ (Bytes.ofNatLE 4 f ++ back)
    simp only [List.append_assoc, back]
  have hfront : front.length = 29 := by
    simp only [front, List.length_append, Bytes.length_ofNatLE, length_magic]
    rfl
  have hlt : f < Nat.pow 256 4 := hf
  exact Bytes.toNatLE_slice hsplit hfront hlt

/-- Every string is a sidecar or refused for its format. It is the sidecar of a
tree exactly if it is, one behind the other, the magic, a zero byte, the version,
the sizes and the number of leaves, a word of flags, the leaves, the upper nodes if
the lowest flag says so, and the checksum of all that. What is written is read
back, and there is no other way to write a tree with flags 0 or 1. -/
theorem decode_spec :
    (∀ b : Bytes, (∃ t, decode b = .ok t) ∨ ∃ text, decode b = .error (.format text)) ∧
    (∀ (t : Tree) (b : Bytes), decode b = .ok t ↔ ∃ f body, f < UInt32.size ∧
      body = Bytes.ofText "VFMREF01" ++ [0] ++ Bytes.ofNatLE 4 1
        ++ Bytes.ofNatLE 8 t.layout.totalSize ++ Bytes.ofNatLE 4 t.layout.chunkSize
        ++ Bytes.ofNatLE 4 t.leafCount ++ Bytes.ofNatLE 4 f ++ t.leaves.flatMap Digest.bytes
        ++ (if f % 2 = 1 then t.internal.flatMap Digest.bytes else []) ∧
      b = body ++ Checksum.trailer body) ∧
    (∀ t : Tree, decode t.encode = .ok t ∧ decode t.encodeFull = .ok t) ∧
    (∀ (t : Tree) (b : Bytes), decode b = .ok t →
      (Bytes.toNatLE (b.slice 29 4) = 0 → b = t.encode) ∧
        (Bytes.toNatLE (b.slice 29 4) = 1 → b = t.encodeFull)) := by
  refine ⟨fun b => ?_, fun t b => ?_, fun t => ?_, fun t b h => ?_⟩
  · cases h : decode b with
    | ok t => exact .inl ⟨t, rfl⟩
    | error e =>
      obtain ⟨text, rfl⟩ := decode_refuses b e h
      exact .inr ⟨text, rfl⟩
  · rw [decode_eq_ok_iff]
    constructor
    · rintro ⟨f, hf, rfl⟩
      exact ⟨f, t.body f, hf, rfl, rfl⟩
    · rintro ⟨f, body, hf, rfl, rfl⟩
      exact ⟨f, hf, rfl⟩
  · exact ⟨t.decode_body (by decide), t.decode_body (by decide)⟩
  · obtain ⟨f, hf, rfl⟩ := decode_eq_ok_iff.1 h
    rw [t.flags_of_body hf]
    exact ⟨fun h0 => by rw [h0]; rfl, fun h1 => by rw [h1]; rfl⟩

end Tree
end VerifiedCopy
