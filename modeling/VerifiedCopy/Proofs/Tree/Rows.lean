/-
# The rows of a hash tree

A heap of nodes is its rows, one after the other from the root down: row `k` has
`2 ^ k` nodes, and each row is the pairs of the next one (`raise`). The last row
is the leaves with their padding. So a tree and its layout are determined by the
leaves (`build_eq_ok_iff`), and the root is what is left of the last row when it
has been paired up `depth` times (`raise_depth`).

Key definitions: `raise`, `Tree.row`.
Key theorems: `capacityFor_le`, `row_heapOf`, `Tree.row_eq_raise`, `Tree.nodes_eq`,
`Tree.build_eq_ok_iff`, `Tree.leaf?_eq_getElem?`, `Tree.row_eq_pairUp`,
`Tree.raise_row`, `Tree.ofContent_eq_ok_iff`.
-/
import VerifiedCopy.Proofs.Bytes
import VerifiedCopy.Proofs.Results
import VerifiedCopy.Tree

namespace VerifiedCopy

/-! ### Depth and capacity -/

/-- The padded row has room for all leaves. -/
theorem le_capacityFor (n : Nat) : n ≤ capacityFor n := by
  unfold capacityFor depthFor
  by_cases h : n ≤ 1
  · rw [if_pos h]
    exact h
  · rw [if_neg h]
    have hlog : n - 1 < Nat.pow 2 (Nat.log2 (n - 1) + 1) := Nat.lt_log2_self
    omega

theorem two_pow_pos (k : Nat) : 0 < Nat.pow 2 k := Nat.pow_pos (by decide)

theorem two_pow_succ (k : Nat) : Nat.pow 2 (k + 1) = Nat.pow 2 k + Nat.pow 2 k := by
  have h : Nat.pow 2 (k + 1) = Nat.pow 2 k * 2 := rfl
  omega

theorem two_pow_le {k d : Nat} (h : k ≤ d) : Nat.pow 2 k ≤ Nat.pow 2 d :=
  Nat.pow_le_pow_right (by decide) h

/-- No smaller power of two has room for all leaves. -/
theorem capacityFor_le {n k : Nat} (h : n ≤ Nat.pow 2 k) : capacityFor n ≤ Nat.pow 2 k := by
  apply two_pow_le
  unfold depthFor
  by_cases hn : n ≤ 1
  · rw [if_pos hn]
    exact Nat.zero_le k
  · rw [if_neg hn]
    have hne : n - 1 ≠ 0 := by omega
    have hlt : n - 1 < Nat.pow 2 k := by omega
    exact (Nat.log2_lt hne).2 hlt

theorem length_paddedRow (leaves : List Digest) :
    (paddedRow leaves).length = capacityFor leaves.length := by
  have h := le_capacityFor leaves.length
  unfold paddedRow
  rw [List.length_append, List.length_replicate]
  omega

/-! ### Rows -/

/-- The row `k` above a row. -/
def raise : Nat → List Digest → List Digest
  | 0, row => row
  | k + 1, row => raise k (pairUp row)

theorem raise_add (j k : Nat) (row : List Digest) : raise (j + k) row = raise k (raise j row) := by
  induction j generalizing row with
  | zero => rw [Nat.zero_add]; rfl
  | succ j ih => rw [Nat.succ_add]; exact ih (pairUp row)

theorem length_pairUp : ∀ row : List Digest, (pairUp row).length = row.length / 2
  | [] => rfl
  | [_] => by simp [pairUp]
  | _ :: _ :: rest => by
    have ih := length_pairUp rest
    simp only [pairUp, List.length_cons, ih]
    omega

theorem length_pairUp_of_succ {d : Nat} {row : List Digest}
    (h : row.length = Nat.pow 2 (d + 1)) : (pairUp row).length = Nat.pow 2 d := by
  rw [length_pairUp, h, two_pow_succ]
  omega

theorem length_raise {d : Nat} (k : Nat) {row : List Digest}
    (h : row.length = Nat.pow 2 (d + k)) : (raise k row).length = Nat.pow 2 d := by
  induction k generalizing row with
  | zero => exact h
  | succ k ih => exact ih (length_pairUp_of_succ h)

theorem length_heapOf (d : Nat) {row : List Digest} (h : row.length = Nat.pow 2 d) :
    (heapOf d row).length = Nat.pow 2 (d + 1) - 1 := by
  induction d generalizing row with
  | zero => rw [heapOf, h]
  | succ d ih =>
    have hpos := two_pow_pos (d + 1)
    rw [heapOf, List.length_append, ih (length_pairUp_of_succ h), h, two_pow_succ (d + 1)]
    omega

/-- Row `k` of a heap is the last row, raised as often as there are rows
between. -/
theorem row_heapOf {d k : Nat} (hk : k ≤ d) {row : List Digest} (h : row.length = Nat.pow 2 d) :
    ((heapOf d row).drop (Nat.pow 2 k - 1)).take (Nat.pow 2 k) = raise (d - k) row := by
  induction d generalizing row with
  | zero =>
    obtain rfl : k = 0 := Nat.le_zero.1 hk
    have h1 : row.length ≤ Nat.pow 2 0 := Nat.le_of_eq h
    exact List.take_of_length_le h1
  | succ d ih =>
    have hup := length_heapOf d (length_pairUp_of_succ h)
    rw [heapOf]
    rcases Nat.lt_or_eq_of_le hk with hlt | rfl
    · have hle := two_pow_le (Nat.le_of_lt_succ hlt)
      have hpos := two_pow_pos k
      rw [two_pow_succ] at hup
      rw [List.drop_append_of_le_length (by omega),
        List.take_append_of_le_length (by rw [List.length_drop]; omega),
        ih (Nat.le_of_lt_succ hlt) (length_pairUp_of_succ h),
        Nat.succ_sub (Nat.le_of_lt_succ hlt)]
      rfl
    · rw [← hup, List.drop_left, Nat.sub_self, ← h]
      exact List.take_length

namespace Tree

variable {t t' : Tree} {l : Layout}

/-- The digests of row `k`, counted from the root. -/
def row (t : Tree) (k : Nat) : List Digest :=
  (t.nodes.toList.drop (Nat.pow 2 k - 1)).take (Nat.pow 2 k)

/-! ### A tree and its leaves -/

theorem leaves_of_built {ls : List Digest} (hlen : ls.length = t.layout.chunkCount)
    (hnodes : t.nodes = (heapOfLeaves ls).toArray) : t.leaves = ls := by
  have hle := le_capacityFor ls.length
  have hrow := row_heapOf (Nat.le_refl (depthFor ls.length)) (length_paddedRow ls)
  rw [Nat.sub_self] at hrow
  have htake : t.leaves = (((heapOfLeaves ls).drop (capacityFor ls.length - 1)).take
      (capacityFor ls.length)).take ls.length := by
    unfold leaves offset capacity leafCount
    rw [hnodes, List.toList_toArray, ← hlen, List.take_take, Nat.min_eq_left hle]
  rw [htake]
  exact (congrArg (List.take ls.length) hrow).trans List.take_left

theorem nodes_eq (t : Tree) : t.nodes.toList = heapOfLeaves t.leaves := by
  obtain ⟨ls, hlen, hnodes⟩ := t.built
  rw [leaves_of_built hlen hnodes, hnodes]

theorem length_leaves (t : Tree) : t.leaves.length = t.leafCount := by
  obtain ⟨ls, hlen, hnodes⟩ := t.built
  rw [leaves_of_built hlen hnodes, hlen]
  rfl

theorem depth_leaves (t : Tree) : t.depth = depthFor t.leaves.length := by
  rw [t.length_leaves]
  rfl

theorem capacity_leaves (t : Tree) : t.capacity = capacityFor t.leaves.length := by
  rw [t.length_leaves]
  rfl

theorem row_eq_raise (t : Tree) {k : Nat} (hk : k ≤ t.depth) :
    t.row k = raise (t.depth - k) (paddedRow t.leaves) := by
  rw [t.depth_leaves] at hk ⊢
  unfold row
  rw [t.nodes_eq]
  exact row_heapOf hk (length_paddedRow t.leaves)

/-- Trees of one layout with the same leaves are one. -/
theorem eq_of_leaves (hl : t.layout = t'.layout) (h : t.leaves = t'.leaves) : t = t' := by
  have hn : t.nodes = t'.nodes := by
    rw [← Array.toList_inj, t.nodes_eq, t'.nodes_eq, h]
  obtain ⟨layout, nodes, built⟩ := t
  obtain ⟨layout', nodes', built'⟩ := t'
  cases hl
  cases hn
  rfl

/-- A tree is what is built from its leaves. -/
theorem build_eq_ok_iff {ls : List Digest} :
    build l ls = .ok t ↔ t.layout = l ∧ t.leaves = ls := by
  unfold build
  constructor
  · intro h
    split at h
    · rename_i hlen
      cases h
      exact ⟨rfl, leaves_of_built hlen rfl⟩
    · cases h
  · rintro ⟨rfl, rfl⟩
    have hlen : t.leaves.length = t.layout.chunkCount := t.length_leaves
    rw [dif_pos hlen]
    refine congrArg Except.ok (eq_of_leaves rfl ?_)
    exact leaves_of_built t.length_leaves rfl

theorem length_nodes (t : Tree) : t.nodes.toList.length = Nat.pow 2 (t.depth + 1) - 1 := by
  rw [t.nodes_eq, heapOfLeaves, length_heapOf _ (length_paddedRow t.leaves), t.length_leaves]
  rfl

theorem leaf?_eq_getElem? (t : Tree) (i : Nat) : t.leaf? i = t.leaves[i]? := by
  have hnodes := t.length_nodes
  have hcap := le_capacityFor t.leafCount
  unfold leaf? leaves
  rw [List.getElem?_take, List.getElem?_drop]
  by_cases hi : i < t.leafCount
  · rw [if_pos hi, if_pos hi]
    have hlt : t.offset + i < t.nodes.toList.length := by
      rw [hnodes, two_pow_succ]
      unfold offset capacity at *
      unfold capacityFor at *
      unfold depth
      omega
    unfold node
    rw [Array.getD_eq_getD_getElem?, ← Array.getElem?_toList, List.getElem?_eq_getElem hlt]
    rfl
  · rw [if_neg hi, if_neg hi]

theorem length_lastRow (t : Tree) : (paddedRow t.leaves).length = Nat.pow 2 t.depth := by
  rw [length_paddedRow, t.length_leaves]
  rfl

theorem length_row {d : Nat} (h : d ≤ t.depth) : (t.row d).length = Nat.pow 2 d := by
  rw [t.row_eq_raise h]
  apply length_raise
  rw [Nat.add_sub_cancel' h]
  exact t.length_lastRow

/-- The last row paired up to the top is the root alone. -/
theorem raise_depth (t : Tree) : raise t.depth (paddedRow t.leaves) = [t.root] := by
  obtain ⟨d, hd⟩ := List.length_eq_one_iff.1 (length_row (Nat.zero_le t.depth))
  have hhead : t.nodes.toList[0]? = some d := by
    have hget : (t.row 0)[0]? = some d := by rw [hd]; rfl
    unfold row at hget
    rw [List.getElem?_take, if_pos (two_pow_pos 0), List.getElem?_drop] at hget
    exact hget
  have hroot : t.root = d := by
    unfold root node
    rw [Array.getD_eq_getD_getElem?, ← Array.getElem?_toList, hhead]
    rfl
  have hrow := t.row_eq_raise (Nat.zero_le t.depth)
  rw [Nat.sub_zero] at hrow
  rw [← hrow, hd, hroot]

/-- A row is the pairs of the next one. -/
theorem row_eq_pairUp {d : Nat} (h : d < t.depth) : t.row d = pairUp (t.row (d + 1)) := by
  have hone : t.depth - d = (t.depth - (d + 1)) + 1 := by omega
  rw [t.row_eq_raise h, t.row_eq_raise (Nat.le_of_lt h), hone, raise_add]
  rfl

/-- Every row leads to the root. -/
theorem raise_row {d : Nat} (h : d ≤ t.depth) : raise d (t.row d) = [t.root] := by
  rw [t.row_eq_raise h, ← raise_add, Nat.sub_add_cancel h, t.raise_depth]

end Tree

/-! ### The tree of some content -/

theorem Layout.ofSizes_eq_ok_iff {totalSize : Nat} {chunkSize : UInt32} {l : Layout} :
    Layout.ofSizes totalSize chunkSize = .ok l ↔
      l.totalSize = totalSize ∧ l.chunkSize = chunkSize.toNat := by
  unfold Layout.ofSizes
  constructor
  · intro h
    dsimp only at h
    split at h
    · split at h
      · cases h; exact ⟨rfl, rfl⟩
      · cases h
    · cases h
  · rintro ⟨rfl, hsize⟩
    have hpos := l.chunkSize_pos
    have hcount := l.chunkCount_lt
    rw [hsize] at hpos hcount
    rw [dif_pos hpos, dif_pos hcount]
    obtain ⟨total, size, h₁, h₂, h₃⟩ := l
    dsimp only at hsize
    subst hsize
    rfl

/-- A layout is what its sizes give. -/
theorem Layout.ofSizes_self (l : Layout) :
    Layout.ofSizes l.totalSize (UInt32.ofNat l.chunkSize) = .ok l :=
  ofSizes_eq_ok_iff.2 ⟨rfl, (UInt32.toNat_ofNat_of_lt' l.chunkSize_lt).symm⟩

/-- The tree of some content has the size of the content and the digests of its
pieces. -/
theorem Tree.ofContent_eq_ok_iff {content : Bytes} {chunkSize : UInt32} {t : Tree} :
    Tree.ofContent content chunkSize = .ok t ↔
      t.layout.totalSize = content.length ∧ t.layout.chunkSize = chunkSize.toNat ∧
        t.leaves = (Bytes.pieces t.layout.chunkSize content).map Digest.ofLeaf := by
  unfold Tree.ofContent
  rw [bind_eq_ok_iff]
  constructor
  · rintro ⟨l, hl, h⟩
    obtain ⟨htotal, hsize⟩ := Layout.ofSizes_eq_ok_iff.1 hl
    obtain ⟨rfl, hleaves⟩ := Tree.build_eq_ok_iff.1 h
    exact ⟨htotal, hsize, hleaves⟩
  · rintro ⟨htotal, hsize, hleaves⟩
    exact ⟨t.layout, Layout.ofSizes_eq_ok_iff.2 ⟨htotal, hsize⟩,
      Tree.build_eq_ok_iff.2 ⟨rfl, hleaves⟩⟩

/-- All content that can be laid out has a tree. -/
theorem Tree.exists_ofContent {content : Bytes} {chunkSize : UInt32} {l : Layout}
    (h : Layout.ofSizes content.length chunkSize = .ok l) :
    ∃ t, Tree.ofContent content chunkSize = .ok t ∧ t.layout = l := by
  obtain ⟨htotal, hsize⟩ := Layout.ofSizes_eq_ok_iff.1 h
  have hlen : ((Bytes.pieces l.chunkSize content).map Digest.ofLeaf).length = l.chunkCount := by
    rw [List.length_map, Bytes.length_pieces l.chunkSize_pos, ← htotal]
    rfl
  refine ⟨⟨l, _, _, hlen, rfl⟩, ofContent_eq_ok_iff.2 ⟨htotal, hsize, ?_⟩, rfl⟩
  exact leaves_of_built hlen rfl

end VerifiedCopy
