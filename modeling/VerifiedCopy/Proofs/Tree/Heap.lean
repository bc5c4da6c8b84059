/-
# The heap of a hash tree

Place `j` of row `k` is node `2 ^ k - 1 + j` (`Tree.nodes_getElem?_row`), and every
node has a row and a place in it (`exists_place`). So the children of node `k` are
the nodes `2 * k + 1` and `2 * k + 2`, and every node above the leaves is the pair
of its children (`Tree.nodes_getElem?_pair`).

The same nodes come about in two other ways. Halving the padded row down to single
digests gives the root without any heap (`Tree.root_eq_rootOf`). And an array that
holds the last row alone becomes the heap if its places are filled from the last
one above the leaves to the root, each with the pair of its children, which are
there already (`joinDown_placed`).

Key definitions: `placed`, `joinDown`, `Joined`.
Key theorems: `Tree.nodes_getElem?_pair`, `Tree.root_eq_rootOf`, `joinDown_placed`,
`Tree.heap_of_build`.
-/
import VerifiedCopy.Proofs.Tree.Rows

namespace VerifiedCopy

/-! ### Pairs -/

variable {row xs ys : List Digest} {d l r : Digest} {k j : Nat}

/-- A digest of the row above a row is the pair of two neighbours. -/
theorem getElem?_pairUp : ∀ {row : List Digest} {j : Nat}, (pairUp row)[j]? = some d ↔
    ∃ l r, row[2 * j]? = some l ∧ row[2 * j + 1]? = some r ∧ d = Digest.ofPair l r
  | [], j => by simp [pairUp]
  | [x], j => by
    constructor
    · intro h
      simp [pairUp] at h
    · rintro ⟨l, r, -, hr, -⟩
      simp at hr
  | x :: y :: rest, 0 => by simp [pairUp, eq_comm]
  | x :: y :: rest, j + 1 => by
    have ih := @getElem?_pairUp rest j
    have htwo : 2 * (j + 1) = 2 * j + 1 + 1 := by omega
    rw [pairUp, List.getElem?_cons_succ, ih, htwo]
    simp only [List.getElem?_cons_succ]

/-- Every place but those of the last row has two children. -/
theorem exists_pair (h : row.length = Nat.pow 2 (k + 1)) (hj : j < Nat.pow 2 k) :
    ∃ l r, row[2 * j]? = some l ∧ row[2 * j + 1]? = some r ∧
      (pairUp row)[j]? = some (Digest.ofPair l r) := by
  have hlen := length_pairUp_of_succ h
  obtain ⟨d, hget⟩ : ∃ d, (pairUp row)[j]? = some d :=
    ⟨_, List.getElem?_eq_getElem (by omega)⟩
  obtain ⟨l, r, hl, hr, hd⟩ := getElem?_pairUp.1 hget
  exact ⟨l, r, hl, hr, by rw [hget, hd]⟩

/-! ### The root by halving -/

theorem pairUp_append : ∀ {xs : List Digest}, xs.length % 2 = 0 →
    pairUp (xs ++ ys) = pairUp xs ++ pairUp ys
  | [], _ => rfl
  | [_], h => by simp at h
  | x :: y :: rest, h => by
    have hrest : rest.length % 2 = 0 := by
      rw [List.length_cons, List.length_cons] at h
      omega
    simp only [List.cons_append, pairUp, pairUp_append hrest]

/-- Two rows one behind the other are raised each on its own. -/
theorem raise_append (h : xs.length = Nat.pow 2 k) :
    raise k (xs ++ ys) = raise k xs ++ raise k ys := by
  induction k generalizing xs ys with
  | zero => rfl
  | succ k ih =>
    have heven : xs.length % 2 = 0 := by
      rw [h, two_pow_succ]
      omega
    calc raise (k + 1) (xs ++ ys) = raise k (pairUp xs ++ pairUp ys) := by
          rw [raise, pairUp_append heven]
      _ = raise (k + 1) xs ++ raise (k + 1) ys := ih (length_pairUp_of_succ h)

/-- Pairing up a whole row comes to the same as halving it. -/
theorem raise_eq_rootOf (h : row.length = Nat.pow 2 k) : raise k row = [rootOf k row] := by
  induction k generalizing row with
  | zero =>
    obtain ⟨d, rfl⟩ := List.length_eq_one_iff.1 h
    rfl
  | succ k ih =>
    rw [two_pow_succ] at h
    have hleft : (row.take (Nat.pow 2 k)).length = Nat.pow 2 k := by
      rw [List.length_take]
      omega
    have hright : (row.drop (Nat.pow 2 k)).length = Nat.pow 2 k := by
      rw [List.length_drop]
      omega
    calc raise (k + 1) row
        = pairUp (raise k (row.take (Nat.pow 2 k) ++ row.drop (Nat.pow 2 k))) := by
          rw [List.take_append_drop, raise_add k 1 row]
          rfl
      _ = pairUp [rootOf k (row.take (Nat.pow 2 k)), rootOf k (row.drop (Nat.pow 2 k))] := by
          rw [raise_append hleft, ih hleft, ih hright]
          rfl
      _ = [rootOf (k + 1) row] := rfl

/-! ### Places in the heap -/

/-- Every node has a row and a place in it. -/
theorem exists_place (n : Nat) : ∃ k j, j < Nat.pow 2 k ∧ n = Nat.pow 2 k - 1 + j := by
  have hlow : Nat.pow 2 (n + 1).log2 ≤ n + 1 := Nat.log2_self_le (Nat.succ_ne_zero n)
  have hhigh : n + 1 < Nat.pow 2 ((n + 1).log2 + 1) := Nat.lt_log2_self
  have hpos := two_pow_pos (n + 1).log2
  rw [two_pow_succ] at hhigh
  exact ⟨(n + 1).log2, n + 1 - Nat.pow 2 (n + 1).log2, by omega, by omega⟩

namespace Tree

variable {t : Tree} {i : Nat}

theorem nodes_getElem?_row (hj : j < Nat.pow 2 k) :
    t.nodes[Nat.pow 2 k - 1 + j]? = (t.row k)[j]? := by
  unfold row
  rw [List.getElem?_take, if_pos hj, List.getElem?_drop, Array.getElem?_toList]

/-- The last row of the heap is the padded row of the leaves. -/
theorem row_depth (t : Tree) : t.row t.depth = paddedRow t.leaves := by
  rw [t.row_eq_raise (Nat.le_refl _), Nat.sub_self]
  rfl

theorem size_nodes (t : Tree) : t.nodes.size = 2 * t.capacity - 1 := by
  have hcap : t.capacity = Nat.pow 2 t.depth := rfl
  have hlen := t.length_nodes
  rw [Array.length_toList, two_pow_succ] at hlen
  omega

/-- Every node above the leaves is the pair of its children. -/
theorem nodes_getElem?_pair (hk : k < t.capacity - 1) :
    ∃ l r, t.nodes[2 * k + 1]? = some l ∧ t.nodes[2 * k + 2]? = some r ∧
      t.nodes[k]? = some (Digest.ofPair l r) := by
  have hcap : t.capacity = Nat.pow 2 t.depth := rfl
  obtain ⟨d, j, hj, rfl⟩ := exists_place k
  have hpos := two_pow_pos d
  have hdepth : d < t.depth := by
    apply Nat.lt_of_not_le
    intro hge
    have hle := two_pow_le hge
    omega
  obtain ⟨l, r, hl, hr, hpair⟩ := exists_pair (length_row hdepth) hj
  have hsucc := two_pow_succ d
  have hleft : 2 * (Nat.pow 2 d - 1 + j) + 1 = Nat.pow 2 (d + 1) - 1 + 2 * j := by omega
  have hright : 2 * (Nat.pow 2 d - 1 + j) + 2 = Nat.pow 2 (d + 1) - 1 + (2 * j + 1) := by omega
  refine ⟨l, r, ?_, ?_, ?_⟩
  · rw [hleft, nodes_getElem?_row (by omega)]
    exact hl
  · rw [hright, nodes_getElem?_row (by omega)]
    exact hr
  · rw [nodes_getElem?_row hj, row_eq_pairUp hdepth]
    exact hpair

/-- Place `i` of the padded row, in the heap. -/
theorem nodes_getElem?_lastRow (hi : i < t.capacity) :
    t.nodes[t.capacity - 1 + i]? = (paddedRow t.leaves)[i]? := by
  rw [← t.row_depth]
  exact nodes_getElem?_row hi

theorem nodes_getElem?_root (t : Tree) : t.nodes[0]? = some t.root := by
  have hpos : 0 < t.nodes.size := by
    have hcap := two_pow_pos t.depth
    have hsize := t.size_nodes
    unfold capacity capacityFor at hsize
    unfold depth at hcap
    omega
  unfold root node
  rw [Array.getD_eq_getD_getElem?, Array.getElem?_eq_getElem hpos]
  rfl

theorem root_eq_rootOf (t : Tree) : t.root = rootOf t.depth (paddedRow t.leaves) := by
  have hroot : [t.root] = [rootOf t.depth (paddedRow t.leaves)] := by
    rw [← t.raise_depth, raise_eq_rootOf t.length_lastRow]
  exact List.head_eq_of_cons_eq hroot

end Tree

/-! ### Filling the heap in its place -/

/-- An array with the padded row behind as many paddings as there are nodes above it. -/
def placed (leaves : List Digest) : Array Digest :=
  (List.replicate (capacityFor leaves.length - 1) Digest.padding ++ paddedRow leaves).toArray

/-- The nodes below `n` of an array, from the last one down to the root, are each set to
the pair of their children; there is no result if a child is not in the array. -/
def joinDown : Nat → Array Digest → Option (Array Digest)
  | 0, a => some a
  | n + 1, a =>
    match a[2 * n + 1]?, a[2 * n + 2]? with
    | some l, some r => joinDown n (a.setIfInBounds n (Digest.ofPair l r))
    | _, _ => none

/-- An array that has the nodes of a tree from node `n` on. -/
structure Joined (t : Tree) (n : Nat) (a : Array Digest) : Prop where
  size : a.size = t.nodes.size
  node : ∀ k, n ≤ k → a[k]? = t.nodes[k]?

namespace Joined

variable {t : Tree} {n : Nat} {a : Array Digest}

/-- At first there are the leaves and their padding. -/
theorem start (t : Tree) : Joined t (t.capacity - 1) (placed t.leaves) := by
  have hlast : (paddedRow t.leaves).length = t.capacity := t.length_lastRow
  have hpos : 0 < t.capacity := two_pow_pos t.depth
  have hsize := t.size_nodes
  have hlen : (placed t.leaves).size = t.nodes.size := by
    unfold placed
    rw [List.size_toArray, List.length_append, List.length_replicate, ← t.capacity_leaves,
      hlast]
    omega
  refine ⟨hlen, fun k hk => ?_⟩
  obtain ⟨i, rfl⟩ := Nat.exists_eq_add_of_le hk
  by_cases hi : i < t.capacity
  · rw [Tree.nodes_getElem?_lastRow hi, placed, List.getElem?_toArray,
      ← t.capacity_leaves, List.getElem?_append_right (by rw [List.length_replicate]; omega),
      List.length_replicate, Nat.add_sub_cancel_left]
  · rw [Array.getElem?_eq_none (by omega), Array.getElem?_eq_none (by omega)]

/-- One node more. -/
theorem step (h : Joined t (n + 1) a) (hn : n < t.capacity - 1) :
    ∃ l r, a[2 * n + 1]? = some l ∧ a[2 * n + 2]? = some r ∧
      Joined t n (a.setIfInBounds n (Digest.ofPair l r)) := by
  obtain ⟨l, r, hl, hr, hpair⟩ := Tree.nodes_getElem?_pair hn
  refine ⟨l, r, ?_, ?_, ?_, fun k hk => ?_⟩
  · rw [h.node _ (by omega), hl]
  · rw [h.node _ (by omega), hr]
  · rw [Array.size_setIfInBounds, h.size]
  · rcases Nat.eq_or_lt_of_le hk with rfl | hlt
    · have hin : n < a.size := by
        have hsize := t.size_nodes
        have hsame := h.size
        omega
      rw [Array.getElem?_setIfInBounds_self_of_lt hin, hpair]
    · rw [Array.getElem?_setIfInBounds_ne (Nat.ne_of_lt hlt)]
      exact h.node k hlt

/-- All the way down to the root. -/
theorem joinDown_eq (h : Joined t n a) (hn : n ≤ t.capacity - 1) :
    joinDown n a = some t.nodes := by
  induction n generalizing a with
  | zero =>
    have hsame : a = t.nodes := by
      apply Array.ext_getElem?
      exact fun k => h.node k (Nat.zero_le k)
    rw [joinDown, hsame]
  | succ n ih =>
    obtain ⟨l, r, hl, hr, hnext⟩ := h.step hn
    rw [joinDown, hl, hr]
    exact ih hnext (Nat.le_of_succ_le hn)

end Joined

/-- Filled in its place, the array becomes the heap, and no child is ever missing. -/
theorem joinDown_placed (t : Tree) :
    joinDown (t.capacity - 1) (placed t.leaves) = some t.nodes :=
  (Joined.start t).joinDown_eq (Nat.le_refl _)

/-! ### The tree over some leaves -/

namespace Tree

variable {t : Tree} {i : Nat}

theorem max_leafCount_le (t : Tree) : max 1 t.leafCount ≤ t.capacity :=
  Nat.max_le.2 ⟨two_pow_pos t.depth, le_capacityFor t.leafCount⟩

/-- Behind the leaves the padded row has the digest of the empty string. -/
theorem getElem?_lastRow_of_le (hi : t.leafCount ≤ i) (hc : i < t.capacity) :
    (paddedRow t.leaves)[i]? = some Digest.padding := by
  have hlen := t.length_leaves
  unfold paddedRow
  rw [List.getElem?_append_right (by omega), ← t.capacity_leaves, List.getElem?_replicate,
    if_pos (by omega)]

theorem getElem?_lastRow_of_lt (hi : i < t.leafCount) :
    (paddedRow t.leaves)[i]? = t.leaves[i]? := by
  have hlen := t.length_leaves
  unfold paddedRow
  rw [List.getElem?_append_left (by omega)]

/-- **A tree is the heap over its leaves.** If there is a leaf for each chunk, there is a
tree, with one node less than twice the least power of two that has room for the leaves.
The leaves come last, followed by the digest of the empty string; every other node is the
digest of its two children, and node 0 is the root that halving the padded row gives. The
same array comes about by going through it from the last inner node to the root, with
every child in its place. With any other number of leaves there is no tree. -/
theorem heap_of_build (l : Layout) (leaves : List Digest) :
    (leaves.length = l.chunkCount → ∃ t, build l leaves = .ok t ∧ t.layout = l ∧
      (t.capacity = Nat.pow 2 t.depth ∧ max 1 l.chunkCount ≤ t.capacity ∧
        ∀ k, max 1 l.chunkCount ≤ Nat.pow 2 k → t.capacity ≤ Nat.pow 2 k) ∧
      t.nodes.size = 2 * t.capacity - 1 ∧
      (∀ i < l.chunkCount, ∃ d, leaves[i]? = some d ∧
        t.nodes[t.capacity - 1 + i]? = some d) ∧
      (∀ i, l.chunkCount ≤ i → i < t.capacity →
        t.nodes[t.capacity - 1 + i]? = some (Blake3.hash [])) ∧
      (∀ k < t.capacity - 1, ∃ a b, t.nodes[2 * k + 1]? = some a ∧
        t.nodes[2 * k + 2]? = some b ∧ t.nodes[k]? = some (Blake3.hash (a.bytes ++ b.bytes))) ∧
      (t.nodes[0]? = some t.root ∧ t.root = rootOf t.depth (paddedRow leaves)) ∧
      joinDown (t.capacity - 1) (placed leaves) = some t.nodes) ∧
    (leaves.length ≠ l.chunkCount → build l leaves =
      .error (.treeMismatch s!"{l.chunkCount} leaves" s!"{leaves.length} leaves")) := by
  constructor
  · intro hlen
    obtain ⟨t, rfl, rfl⟩ : ∃ t : Tree, t.layout = l ∧ t.leaves = leaves :=
      ⟨⟨l, _, leaves, hlen, rfl⟩, rfl, leaves_of_built hlen rfl⟩
    refine ⟨t, build_eq_ok_iff.2 ⟨rfl, rfl⟩, rfl, ⟨rfl, t.max_leafCount_le, ?_⟩, t.size_nodes,
      ?_, ?_, fun k hk => nodes_getElem?_pair hk, ⟨t.nodes_getElem?_root, t.root_eq_rootOf⟩,
      joinDown_placed t⟩
    · intro k hk
      exact capacityFor_le (Nat.le_trans (Nat.le_max_right 1 _) hk)
    · intro i hi
      have hc : i < t.capacity := Nat.lt_of_lt_of_le hi (le_capacityFor t.leafCount)
      have hd := List.getElem?_eq_getElem (hlen ▸ hi : i < t.leaves.length)
      exact ⟨_, hd, by rw [nodes_getElem?_lastRow hc, getElem?_lastRow_of_lt hi, hd]⟩
    · intro i hi hc
      rw [nodes_getElem?_lastRow hc]
      exact getElem?_lastRow_of_le hi hc
  · intro hne
    unfold build
    rw [dif_neg hne]

/-- The leaves of three chunks. -/
def threeLeaves : List Digest := [Digest.ofLeaf [97], Digest.ofLeaf [98], Digest.ofLeaf [99]]

theorem exists_three : ∃ l t, Layout.ofSizes 30 10 = .ok l ∧ build l threeLeaves = .ok t ∧
    t.layout = l ∧ t.leaves = threeLeaves ∧ t.leafCount = 3 := by
  have hl : Layout.ofSizes 30 10 = .ok ⟨30, 10, by decide, by decide, by decide⟩ := rfl
  obtain ⟨t, hlayout, hleaves⟩ : ∃ t : Tree,
      t.layout = ⟨30, 10, by decide, by decide, by decide⟩ ∧ t.leaves = threeLeaves :=
    ⟨⟨_, _, threeLeaves, rfl, rfl⟩, rfl, leaves_of_built rfl rfl⟩
  refine ⟨_, t, hl, build_eq_ok_iff.2 ⟨hlayout, hleaves⟩, hlayout, hleaves, ?_⟩
  rw [← t.length_leaves, hleaves]
  rfl

/-- The third of three leaves has a padding for a neighbour. -/
theorem heap_of_build_three : ∃ l t, Layout.ofSizes 30 10 = .ok l ∧
    threeLeaves.length = l.chunkCount ∧ build l threeLeaves = .ok t ∧ t.nodes.size = 7 ∧
    t.root = Digest.ofPair (Digest.ofPair (Digest.ofLeaf [97]) (Digest.ofLeaf [98]))
      (Digest.ofPair (Digest.ofLeaf [99]) Digest.padding) := by
  obtain ⟨l, t, hl, ht, hlayout, hleaves, hcount⟩ := exists_three
  have hlen : threeLeaves.length = l.chunkCount := by
    rw [← hlayout, ← hleaves]
    exact t.length_leaves
  obtain ⟨t', ht', -, -, hsize, -, -, -, ⟨-, hroot⟩, -⟩ := (heap_of_build l threeLeaves).1 hlen
  obtain rfl : t = t' := Except.ok.inj (ht.symm.trans ht')
  refine ⟨l, t, hl, hlen, ht, ?_, ?_⟩
  · rw [hsize, capacity, hcount]
    rfl
  · rw [hroot, depth, hcount]
    rfl

end Tree
end VerifiedCopy
