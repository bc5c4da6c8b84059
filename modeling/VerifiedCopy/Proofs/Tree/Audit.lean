/-
# What an audit path proves

A path of the right length leads from a digest and a place to the root of a tree
exactly if the digest stands at that place of the padded row and the path is that
of the tree. Both directions rest on one step between two rows: a node, the
sibling that `siblingOf` finds in the heap, and the pair of the two in the row
above (`Tree.exists_family`).

From the leaf up, the pairs are those of the tree, so its own path leads to the
root (`Tree.climb_siblings`). The converse comes down from the root: a digest of a
row that was hashed from the tree's own string was hashed from the tree's own
children, as long as no two of the strings hashed collide (`Tree.eq_of_climb`).

The path of a place is given without a depth as the siblings of all nodes on the
way up (`wayUp`, `Tree.pathOf`); that the way has as many nodes as the tree has
rows above the leaves is part of the statement.

Key definitions: `wayUp`, `Tree.pathOf`, `climbInputs`.
Key theorems: `Tree.exists_family`, `Tree.climb_siblings`, `Tree.eq_of_climb`,
`Tree.audit_paths`.
-/
import VerifiedCopy.Proofs.Tree.Authenticity
import VerifiedCopy.Proofs.Tree.Heap
import VerifiedCopy.Tree.Audit

namespace VerifiedCopy

variable {row : List Digest} {d l r : Digest} {k j : Nat} {p : List Digest}

/-- The nodes from a node up to the root, without the root. -/
def wayUp (node : Nat) : List Nat :=
  if 0 < node then node :: wayUp ((node - 1) / 2) else []
termination_by node
decreasing_by omega

/-- The strings hashed on the way of a digest along a path. -/
def climbInputs : Nat → Digest → List Digest → List Bytes
  | _, _, [] => []
  | place, d, s :: path =>
    (if place % 2 = 0 then d.bytes ++ s.bytes else s.bytes ++ d.bytes) ::
      climbInputs (place / 2)
        (if place % 2 = 0 then Digest.ofPair d s else Digest.ofPair s d) path

theorem verifyPath_iff {root : Digest} :
    verifyPath root j d p = true ↔ climb j d p = (0, root) := by
  unfold verifyPath
  simp [Prod.ext_iff]

theorem mem_pairInputs : ∀ {row : List Digest} {j : Nat}, row[2 * j]? = some l →
    row[2 * j + 1]? = some r → l.bytes ++ r.bytes ∈ pairInputs row
  | [], _, hl, _ => by simp at hl
  | [_], _, _, hr => by simp at hr
  | x :: y :: rest, 0, hl, hr => by
    cases hl
    cases hr
    exact List.mem_cons_self
  | x :: y :: rest, j + 1, hl, hr => by
    have hleft : 2 * (j + 1) = 2 * j + 1 + 1 := by omega
    rw [hleft, List.getElem?_cons_succ, List.getElem?_cons_succ] at hl hr
    exact List.mem_cons_of_mem _ (mem_pairInputs hl hr)

/-! ### Parents and siblings in the heap -/

/-- The parent of a node of row `k + 1`. -/
theorem parent_place (k j : Nat) :
    (Nat.pow 2 (k + 1) - 1 + j - 1) / 2 = Nat.pow 2 k - 1 + j / 2 := by
  have hpos := two_pow_pos k
  rw [two_pow_succ]
  omega

/-- The sibling of a node of row `k + 1`. -/
theorem sibling_place (k j : Nat) : siblingOf (Nat.pow 2 (k + 1) - 1 + j) =
    Nat.pow 2 (k + 1) - 1 + (if j % 2 = 0 then 2 * (j / 2) + 1 else 2 * (j / 2)) := by
  have hpos := two_pow_pos k
  rw [two_pow_succ]
  unfold siblingOf
  split <;> split <;> omega

namespace Tree

variable {t : Tree} {i : Nat}

theorem node_eq (h : t.nodes[i]? = some d) : t.node i = d := by
  unfold node
  rw [Array.getD_eq_getD_getElem?, h]
  rfl

/-- The siblings of the nodes from place `j` of the padded row up to the root. -/
def pathOf (t : Tree) (j : Nat) : List Digest :=
  (wayUp (t.offset + j)).map fun n => t.node (siblingOf n)

/-- A way up from row `k` has `k` nodes. -/
theorem siblings_eq_wayUp (t : Tree) (hj : j < Nat.pow 2 k) :
    t.siblings k (Nat.pow 2 k - 1 + j) =
      (wayUp (Nat.pow 2 k - 1 + j)).map fun n => t.node (siblingOf n) := by
  induction k generalizing j with
  | zero =>
    obtain rfl : j = 0 := Nat.lt_one_iff.1 hj
    rw [wayUp]
    rfl
  | succ k ih =>
    have hpos := two_pow_pos k
    have hsucc := two_pow_succ k
    rw [wayUp, if_pos (by omega), List.map_cons, siblings, parent_place, ih (by omega)]

theorem length_siblings (t : Tree) : ∀ k n : Nat, (t.siblings k n).length = k
  | 0, _ => rfl
  | k + 1, n => by rw [siblings, List.length_cons, length_siblings]

/-- Two neighbours of a row and their pair in the row above: which of the two a place
holds, and which one is its sibling, is told by its lowest bit. -/
theorem exists_family (hk : k < t.depth) (hj : j < Nat.pow 2 (k + 1)) :
    ∃ l r, (t.row k)[j / 2]? = some (Digest.ofPair l r) ∧
      l.bytes ++ r.bytes ∈ pairInputs (t.row (k + 1)) ∧
      (t.row (k + 1))[j]? = some (if j % 2 = 0 then l else r) ∧
      t.node (siblingOf (Nat.pow 2 (k + 1) - 1 + j)) = if j % 2 = 0 then r else l := by
  have hsucc := two_pow_succ k
  obtain ⟨l, r, hl, hr, hpair⟩ := exists_pair (length_row hk) (show j / 2 < Nat.pow 2 k by omega)
  have hnode : ∀ {i : Nat} {x : Digest}, (t.row (k + 1))[i]? = some x → i < Nat.pow 2 (k + 1) →
      t.node (Nat.pow 2 (k + 1) - 1 + i) = x := by
    intro i x hx hi
    exact node_eq ((nodes_getElem?_row hi).trans hx)
  refine ⟨l, r, by rw [row_eq_pairUp hk, hpair], mem_pairInputs hl hr, ?_, ?_⟩
  · rcases Nat.mod_two_eq_zero_or_one j with heven | hodd
    · rw [if_pos heven, ← hl]
      congr 1
      omega
    · rw [if_neg (by omega), ← hr]
      congr 1
      omega
  · rw [sibling_place]
    rcases Nat.mod_two_eq_zero_or_one j with heven | hodd
    · rw [if_pos heven, if_pos heven]
      exact hnode hr (by omega)
    · rw [if_neg (by omega), if_neg (by omega)]
      exact hnode hl (by omega)

theorem row_zero (t : Tree) : (t.row 0)[0]? = some t.root := by
  rw [← nodes_getElem?_row (two_pow_pos 0)]
  exact t.nodes_getElem?_root

/-! ### Up from a leaf -/

/-- The siblings of a node lead from it to the root. -/
theorem climb_siblings (hk : k ≤ t.depth) (hj : j < Nat.pow 2 k)
    (hd : (t.row k)[j]? = some d) :
    climb j d (t.siblings k (Nat.pow 2 k - 1 + j)) = (0, t.root) := by
  induction k generalizing j d with
  | zero =>
    obtain rfl : j = 0 := Nat.lt_one_iff.1 hj
    obtain rfl : d = t.root := Option.some.inj (hd.symm.trans t.row_zero)
    rfl
  | succ k ih =>
    have hsucc := two_pow_succ k
    obtain ⟨l, r, hpair, -, hplace, hsibling⟩ := exists_family hk hj
    obtain rfl := Option.some.inj (hd.symm.trans hplace)
    have hup := ih (Nat.le_of_lt hk) (show j / 2 < Nat.pow 2 k by omega) hpair
    rw [siblings, parent_place, hsibling, climb, ← hup]
    by_cases heven : j % 2 = 0
    · simp only [if_pos heven]
    · simp only [if_neg heven]

/-! ### Down from the root -/

/-- What leads to the root stands in its place, and so does everything on the way. -/
theorem eq_of_climb {zs : List Bytes} (hfree : CollisionFree zs)
    (hin : ∀ x ∈ nodeInputs t.depth (paddedRow t.leaves), x ∈ zs) (hk : k ≤ t.depth)
    (hclimbed : ∀ x ∈ climbInputs j d p, x ∈ zs) (hlen : p.length = k)
    (h : climb j d p = (0, t.root)) :
    j < Nat.pow 2 k ∧ (t.row k)[j]? = some d ∧ p = t.siblings k (Nat.pow 2 k - 1 + j) := by
  induction k generalizing j d p with
  | zero =>
    obtain rfl := List.length_eq_zero_iff.1 hlen
    obtain ⟨rfl, rfl⟩ := Prod.mk.inj h
    exact ⟨two_pow_pos 0, t.row_zero, rfl⟩
  | succ k ih =>
    obtain ⟨s, p, rfl⟩ := List.exists_cons_of_length_eq_add_one hlen
    rw [climbInputs, List.forall_mem_cons] at hclimbed
    have hsucc := two_pow_succ k
    -- The digest above is the tree's, so its string is hashed for the tree as well.
    obtain ⟨hup, hpair, hpath⟩ := ih (Nat.le_of_lt hk) hclimbed.2 (Nat.succ.inj hlen) h
    have hj : j < Nat.pow 2 (k + 1) := by omega
    obtain ⟨l, r, hpair', hmem, hplace, hsibling⟩ := exists_family hk hj
    have hown : l.bytes ++ r.bytes ∈ zs :=
      hin _ (mem_nodeInputs_of_row hk (List.mem_append_right _ hmem))
    have hsame := Option.some.inj (hpair.symm.trans hpair')
    rw [siblings, parent_place, hsibling, hplace, hpath]
    by_cases heven : j % 2 = 0
    · rw [if_pos heven] at hsame hclimbed
      obtain ⟨rfl, rfl⟩ := Digest.eq_of_append (hfree _ hclimbed.1 _ hown hsame)
      exact ⟨hj, by rw [if_pos heven], by rw [if_pos heven]⟩
    · rw [if_neg heven] at hsame hclimbed
      obtain ⟨rfl, rfl⟩ := Digest.eq_of_append (hfree _ hclimbed.1 _ hown hsame)
      exact ⟨hj, by rw [if_neg heven], by rw [if_neg heven]⟩

/-! ### Both directions -/

theorem log2_capacity (t : Tree) : Nat.log2 t.capacity = t.depth := Nat.log2_two_pow

/-- The siblings up to the root, counted by rows or node by node. -/
theorem siblings_eq_pathOf (hj : j < t.capacity) :
    t.siblings t.depth (t.offset + j) = t.pathOf j :=
  t.siblings_eq_wayUp hj

/-- **Audit paths are complete and sound.** There is a path for every leaf and for no other
place; it has as many digests as there are rows above the leaves, and it is accepted with
its leaf. Whatever index, digest and path of that length are accepted, the index is a place
of the padded row, the digest stands there, and the path is that of the place, unless two of
the strings hashed for the inner nodes or along the path collide. -/
theorem audit_paths (t : Tree) :
    (∀ i, t.auditPath? i = none ↔ t.leafCount ≤ i) ∧
    (∀ i < t.leafCount, ∃ d, t.leaf? i = some d ∧ t.auditPath? i = some (t.pathOf i) ∧
      (t.pathOf i).length = Nat.log2 t.capacity ∧ verifyPath t.root i d (t.pathOf i) = true) ∧
    (∀ j d p, p.length = Nat.log2 t.capacity →
      CollisionFree (nodeInputs t.depth (paddedRow t.leaves) ++ climbInputs j d p) →
      verifyPath t.root j d p = true →
      j < t.capacity ∧ (paddedRow t.leaves)[j]? = some d ∧
        (j < t.leafCount → t.leaf? j = some d) ∧ (t.leafCount ≤ j → d = Digest.padding) ∧
        p = t.pathOf j) := by
  have hcount : t.leafCount ≤ t.capacity := le_capacityFor t.leafCount
  refine ⟨fun i => ?_, fun i hi => ?_, fun j d p hlen hfree h => ?_⟩
  · unfold auditPath?
    split <;> simp <;> omega
  · have hic : i < t.capacity := Nat.lt_of_lt_of_le hi hcount
    have hlen : i < t.leaves.length := by
      rw [t.length_leaves]
      exact hi
    obtain ⟨d, hd⟩ : ∃ d, t.leaves[i]? = some d := ⟨_, List.getElem?_eq_getElem hlen⟩
    have hrow : (t.row t.depth)[i]? = some d := by
      rw [row_depth, getElem?_lastRow_of_lt hi, hd]
    have hclimb := climb_siblings (Nat.le_refl t.depth) hic hrow
    refine ⟨d, by rw [leaf?_eq_getElem?, hd], ?_, ?_, ?_⟩
    · rw [auditPath?, if_pos hi, siblings_eq_pathOf hic]
    · rw [← siblings_eq_pathOf hic, length_siblings, log2_capacity]
    · rw [verifyPath_iff, ← siblings_eq_pathOf hic]
      exact hclimb
  · obtain ⟨hj, hrow, hpath⟩ := eq_of_climb hfree
      (fun x hx => List.mem_append_left _ hx) (Nat.le_refl t.depth)
      (fun x hx => List.mem_append_right _ hx) (hlen.trans t.log2_capacity) (verifyPath_iff.1 h)
    rw [row_depth] at hrow
    refine ⟨hj, hrow, fun hlt => ?_, fun hge => ?_, ?_⟩
    · rw [leaf?_eq_getElem?, ← getElem?_lastRow_of_lt hlt, hrow]
    · have hpad := getElem?_lastRow_of_le hge hj
      exact Option.some.inj (hrow.symm.trans hpad)
    · rw [← siblings_eq_pathOf hj]
      exact hpath

/-- What stands beside the third of three leaves, and above that beside the two. -/
def besideThird : List Digest :=
  [Digest.padding, Digest.ofPair (Digest.ofLeaf [97]) (Digest.ofLeaf [98])]

/-- The third of three leaves is accepted with its path, and no two of the strings hashed
collide. -/
theorem audit_paths_three : ∃ l t, Layout.ofSizes 30 10 = .ok l ∧ build l threeLeaves = .ok t ∧
    besideThird.length = Nat.log2 t.capacity ∧
    CollisionFree (nodeInputs t.depth (paddedRow t.leaves) ++
      climbInputs 2 (Digest.ofLeaf [99]) besideThird) ∧
    verifyPath t.root 2 (Digest.ofLeaf [99]) besideThird = true ∧
    t.leaf? 2 = some (Digest.ofLeaf [99]) ∧ t.auditPath? 2 = some besideThird := by
  obtain ⟨l, t, hl, ht, -, hleaves, hcount⟩ := exists_three
  have hdepth : t.depth = 2 := by
    rw [depth, hcount]
    rfl
  have hlen : besideThird.length = Nat.log2 t.capacity := (t.log2_capacity.trans hdepth).symm
  have hfree : CollisionFree (nodeInputs t.depth (paddedRow t.leaves) ++
      climbInputs 2 (Digest.ofLeaf [99]) besideThird) := by
    rw [hdepth, hleaves]
    decide +kernel
  have haccepted : verifyPath t.root 2 (Digest.ofLeaf [99]) besideThird = true := by
    rw [verifyPath_iff, root_eq_rootOf, hdepth, hleaves]
    rfl
  obtain ⟨-, hcomplete, hsound⟩ := audit_paths t
  obtain ⟨-, -, hleaf, -, hpath⟩ := hsound 2 _ _ hlen hfree haccepted
  obtain ⟨-, -, hown, -⟩ := hcomplete 2 (by omega)
  exact ⟨l, t, hl, ht, hlen, hfree, haccepted, hleaf (by omega), by rw [hown, hpath]⟩

end Tree
end VerifiedCopy
