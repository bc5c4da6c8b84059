/-
# What a root says about the content

The digest of a chunk and the digest of an inner node are made by one function,
and nothing in what is hashed tells the two apart. So a root determines the
content as long as no two of the strings hashed collide (`CollisionFree`), with
one exception: the pairs of digests that are hashed for a row of one tree can
themselves be the chunks of some other content (`Tree.Quotes`). That content has
a tree of its own, of smaller depth, with the same root.

Going down from equal roots, the strings hashed for one row are equal because
their digests are, and so are the digests in the next row (`raise_injective`).
The shallower tree comes to its leaves first: either both do, and the chunks are
the same, or the chunks of one are pairs of digests of the other.

Key definitions: `CollisionFree`, `pairInputs`, `nodeInputs`, `treeInputs`,
`Tree.Quotes`.
Key theorems: `CollisionFree.map_injective`, `raise_injective`,
`lastRow_eq_row`, `root_eq_of_quotes`, `content_of_root_eq`.
-/
import VerifiedCopy.Proofs.Tree.Rows

namespace VerifiedCopy

/-- No two different strings of a list have the same digest. -/
def CollisionFree (xs : List Bytes) : Prop :=
  ∀ x ∈ xs, ∀ y ∈ xs, Blake3.hash x = Blake3.hash y → x = y

/-- Lists of strings are determined by the lists of their digests. -/
theorem CollisionFree.map_injective {zs : List Bytes} (h : CollisionFree zs) :
    ∀ {xs ys : List Bytes}, (∀ x ∈ xs, x ∈ zs) → (∀ y ∈ ys, y ∈ zs) →
      xs.map Blake3.hash = ys.map Blake3.hash → xs = ys
  | [], [], _, _, _ => rfl
  | x :: xs, y :: ys, hx, hy, e => by
    rw [List.map_cons, List.map_cons, List.cons.injEq] at e
    rw [List.forall_mem_cons] at hx hy
    rw [h x hx.1 y hy.1 e.1, h.map_injective hx.2 hy.2 e.2]

/-! ### The strings hashed for a tree -/

/-- The strings hashed for the row above a row. -/
def pairInputs : List Digest → List Bytes
  | l :: r :: rest => (l.bytes ++ r.bytes) :: pairInputs rest
  | _ => []

/-- The strings hashed for all nodes above a row of `2 ^ d` digests. -/
def nodeInputs : Nat → List Digest → List Bytes
  | 0, _ => []
  | d + 1, row => nodeInputs d (pairUp row) ++ pairInputs row

/-- All strings hashed for the tree of some content: its pieces, the empty string
for the padding, and the pairs of digests for the inner nodes. -/
def treeInputs (chunkSize : Nat) (content : Bytes) : List Bytes :=
  let pieces := Bytes.pieces chunkSize content
  let leaves := pieces.map Digest.ofLeaf
  pieces ++ [] :: nodeInputs (depthFor leaves.length) (paddedRow leaves)

instance (xs : List Bytes) : Decidable (CollisionFree xs) :=
  inferInstanceAs (Decidable (∀ x ∈ xs, ∀ y ∈ xs, Blake3.hash x = Blake3.hash y → x = y))

theorem map_hash_pairInputs : ∀ row : List Digest, (pairInputs row).map Blake3.hash = pairUp row
  | [] => rfl
  | [_] => rfl
  | _ :: _ :: rest => by
    rw [pairInputs, List.map_cons, map_hash_pairInputs rest]
    rfl

theorem length_of_mem_pairInputs : ∀ {row : List Digest} {x : Bytes}, x ∈ pairInputs row →
    x.length = 64
  | l :: r :: rest, x, h => by
    rw [pairInputs, List.mem_cons] at h
    rcases h with rfl | h
    · rw [List.length_append, l.length_bytes, r.length_bytes]
    · exact length_of_mem_pairInputs h

/-- The string hashed for a pair says what the two digests are. -/
theorem Digest.eq_of_append {l r l' r' : Digest} (h : l.bytes ++ r.bytes = l'.bytes ++ r'.bytes) :
    l = l' ∧ r = r' := by
  obtain ⟨hl, hr⟩ := List.append_inj h (by rw [l.length_bytes, l'.length_bytes])
  obtain ⟨lb, hlb⟩ := l
  obtain ⟨lb', hlb'⟩ := l'
  obtain ⟨rb, hrb⟩ := r
  obtain ⟨rb', hrb'⟩ := r'
  cases hl
  cases hr
  exact ⟨rfl, rfl⟩

/-- The pairs of a row say what its digests are. -/
theorem eq_of_pairInputs : ∀ {d : Nat} {row row' : List Digest}, row.length = 2 * d →
    row'.length = 2 * d → pairInputs row = pairInputs row' → row = row'
  | 0, [], [], _, _, _ => rfl
  | d + 1, l :: r :: rest, l' :: r' :: rest', h, h', e => by
    rw [pairInputs, pairInputs, List.cons.injEq] at e
    obtain ⟨rfl, rfl⟩ := Digest.eq_of_append e.1
    have hrest : rest = rest' := by
      refine eq_of_pairInputs (d := d) ?_ ?_ e.2
      · rw [List.length_cons, List.length_cons] at h; omega
      · rw [List.length_cons, List.length_cons] at h'; omega
    rw [hrest]

theorem mem_nodeInputs_add {d : Nat} (k : Nat) {row : List Digest} {x : Bytes}
    (h : x ∈ nodeInputs d (raise k row)) : x ∈ nodeInputs (d + k) row := by
  induction k generalizing row with
  | zero => exact h
  | succ k ih => exact List.mem_append_left _ (ih h)

/-- Rows with the same digests so many rows above are the same. -/
theorem raise_injective {zs : List Bytes} (hfree : CollisionFree zs) (d : Nat)
    {row row' : List Digest} (hlen : row.length = Nat.pow 2 d) (hlen' : row'.length = Nat.pow 2 d)
    (hsub : ∀ x ∈ nodeInputs d row, x ∈ zs) (hsub' : ∀ x ∈ nodeInputs d row', x ∈ zs)
    (h : raise d row = raise d row') : row = row' := by
  induction d generalizing row row' with
  | zero => exact h
  | succ d ih =>
    rw [nodeInputs, List.forall_mem_append] at hsub hsub'
    have hup : pairUp row = pairUp row' :=
      ih (length_pairUp_of_succ hlen) (length_pairUp_of_succ hlen') hsub.1 hsub'.1 h
    rw [← map_hash_pairInputs, ← map_hash_pairInputs] at hup
    have hpairs := hfree.map_injective hsub.2 hsub'.2 hup
    refine eq_of_pairInputs (d := Nat.pow 2 d) ?_ ?_ hpairs
    · rw [hlen, two_pow_succ]; omega
    · rw [hlen', two_pow_succ]; omega

/-! ### Equal roots -/

namespace Tree

variable {t t' : Tree} {D D' : Bytes} {c c' : UInt32}

/-- The tree `t'` is deeper than `t`, and the pieces that `t` cuts some content
into are the pairs of digests that `t'` hashes for the row as long as the last
row of `t`. -/
def Quotes (t : Tree) (D : Bytes) (t' : Tree) : Prop :=
  t.depth < t'.depth ∧
    Bytes.pieces t.layout.chunkSize D = pairInputs (t'.row (t.depth + 1))

theorem treeInputs_of_content (h : Tree.ofContent D c = .ok t) :
    treeInputs c.toNat D =
      Bytes.pieces t.layout.chunkSize D ++ [] :: nodeInputs t.depth (paddedRow t.leaves) := by
  obtain ⟨-, hsize, hleaves⟩ := ofContent_eq_ok_iff.1 h
  unfold treeInputs
  rw [← hsize, t.depth_leaves, hleaves]

/-- The last row of the tree of some content is the digests of its pieces and of
empty strings. -/
theorem lastRow_of_content (h : Tree.ofContent D c = .ok t) : ∃ n, paddedRow t.leaves =
    (Bytes.pieces t.layout.chunkSize D ++ List.replicate n []).map Blake3.hash := by
  obtain ⟨-, -, hleaves⟩ := ofContent_eq_ok_iff.1 h
  refine ⟨capacityFor t.leaves.length - t.leaves.length, ?_⟩
  rw [List.map_append, List.map_replicate, paddedRow, hleaves]
  rfl

theorem flatten_pieces_append (l : Layout) (b : Bytes) (n : Nat) :
    (Bytes.pieces l.chunkSize b ++ List.replicate n []).flatten = b := by
  rw [List.flatten_append, Bytes.flatten_pieces l.chunkSize_pos, List.flatten_replicate_nil,
    List.append_nil]

/-- What is hashed above a row of a tree is hashed for the tree. -/
theorem mem_nodeInputs_of_row {d : Nat} {x : Bytes} (h : d ≤ t.depth)
    (hx : x ∈ nodeInputs d (t.row d)) : x ∈ nodeInputs t.depth (paddedRow t.leaves) := by
  rw [t.row_eq_raise h] at hx
  have hall := mem_nodeInputs_add (t.depth - d) hx
  rw [Nat.add_sub_cancel' h] at hall
  exact hall

/-- The last row of a tree is a row of any tree that has the same root and is no
less deep. -/
theorem lastRow_eq_row {zs : List Bytes} (hfree : CollisionFree zs)
    (hin : ∀ x ∈ nodeInputs t.depth (paddedRow t.leaves), x ∈ zs)
    (hin' : ∀ x ∈ nodeInputs t'.depth (paddedRow t'.leaves), x ∈ zs) (hle : t.depth ≤ t'.depth)
    (hroot : t.root = t'.root) : paddedRow t.leaves = t'.row t.depth := by
  apply raise_injective hfree t.depth t.length_lastRow (length_row hle) hin
  · exact fun x hx => hin' x (mem_nodeInputs_of_row hle hx)
  · rw [t.raise_depth, raise_row hle, hroot]

/-- The content of the tree that is no deeper is the other one, or it quotes the
other tree. -/
theorem eq_or_quotes {zs : List Bytes} (ht : Tree.ofContent D c = .ok t)
    (ht' : Tree.ofContent D' c' = .ok t') (hfree : CollisionFree zs)
    (hin : ∀ x ∈ treeInputs c.toNat D, x ∈ zs) (hin' : ∀ x ∈ treeInputs c'.toNat D', x ∈ zs)
    (hle : t.depth ≤ t'.depth) (hroot : t.root = t'.root) : D = D' ∨ t.Quotes D t' := by
  rw [treeInputs_of_content ht] at hin
  rw [treeInputs_of_content ht'] at hin'
  rw [List.forall_mem_append, List.forall_mem_cons] at hin hin'
  obtain ⟨hpieces, hempty, hnodes⟩ := hin
  obtain ⟨hpieces', -, hnodes'⟩ := hin'
  have hrow := lastRow_eq_row hfree hnodes hnodes' hle hroot
  obtain ⟨n, hn⟩ := lastRow_of_content ht
  have hpad : ∀ m, ∀ x ∈ List.replicate m ([] : Bytes), x ∈ zs := by
    intro m x hx
    rw [List.eq_of_mem_replicate hx]
    exact hempty
  rcases Nat.lt_or_eq_of_le hle with hlt | heq
  · -- The leaves of `t` are inner nodes of `t'`.
    refine .inr ⟨hlt, ?_⟩
    have hsame : Bytes.pieces t.layout.chunkSize D ++ List.replicate n [] =
        pairInputs (t'.row (t.depth + 1)) := by
      refine hfree.map_injective (List.forall_mem_append.2 ⟨hpieces, hpad n⟩) ?_ ?_
      · exact fun x hx => hnodes' x (mem_nodeInputs_of_row hlt (List.mem_append_right _ hx))
      · rw [← hn, hrow, row_eq_pairUp hlt, map_hash_pairInputs]
    -- No pair of digests is empty, so there is no padding.
    cases n with
    | zero => rw [← hsame, List.replicate_zero, List.append_nil]
    | succ n =>
      have hmem : ([] : Bytes) ∈ pairInputs (t'.row (t.depth + 1)) := by
        rw [← hsame]
        exact List.mem_append_right _ (List.mem_replicate.2 ⟨Nat.succ_ne_zero n, rfl⟩)
      cases length_of_mem_pairInputs hmem
  · left
    obtain ⟨n', hn'⟩ := lastRow_of_content ht'
    rw [heq, t'.row_eq_raise (Nat.le_refl _), Nat.sub_self] at hrow
    have hsame := hfree.map_injective (List.forall_mem_append.2 ⟨hpieces, hpad n⟩)
      (List.forall_mem_append.2 ⟨hpieces', hpad n'⟩) (by rw [← hn, ← hn']; exact hrow)
    rw [← flatten_pieces_append t.layout D n, hsame, flatten_pieces_append]

/-- Content that quotes a row of another tree has the root of that tree. -/
theorem root_eq_of_quotes (ht : Tree.ofContent D c = .ok t) (h : t.Quotes D t') :
    t.root = t'.root := by
  obtain ⟨hlt, hpieces⟩ := h
  obtain ⟨-, -, hleaves⟩ := ofContent_eq_ok_iff.1 ht
  have hup : t.leaves = pairUp (t'.row (t.depth + 1)) := by
    rw [hleaves, hpieces]
    exact map_hash_pairInputs _
  -- As many pairs as the last row has places: there is no padding.
  have hfull : capacityFor t.leaves.length = t.leaves.length := by
    have hlen := t.length_lastRow
    rw [length_paddedRow] at hlen
    rw [hlen, hup, length_pairUp_of_succ (length_row hlt)]
  have hlast : paddedRow t.leaves = t'.row t.depth := by
    rw [row_eq_pairUp hlt, ← hup, paddedRow, hfull, Nat.sub_self, List.replicate_zero,
      List.append_nil]
  have htop := t.raise_depth
  rw [hlast, raise_row (Nat.le_of_lt hlt)] at htop
  exact (List.cons.inj htop).1.symm

/-- Trees with the same root are trees of the same content, unless one content
quotes the tree of the other; content that does has the same root. -/
theorem content_of_root_eq (ht : Tree.ofContent D c = .ok t)
    (ht' : Tree.ofContent D' c' = .ok t')
    (hfree : CollisionFree (treeInputs c.toNat D ++ treeInputs c'.toNat D')) :
    (t.root = t'.root → D = D' ∨ t.Quotes D t' ∨ t'.Quotes D' t) ∧
      (t.Quotes D t' ∨ t'.Quotes D' t → t.root = t'.root) := by
  have hin : ∀ x ∈ treeInputs c.toNat D, x ∈ treeInputs c.toNat D ++ treeInputs c'.toNat D' :=
    fun x hx => List.mem_append_left _ hx
  have hin' : ∀ x ∈ treeInputs c'.toNat D', x ∈ treeInputs c.toNat D ++ treeInputs c'.toNat D' :=
    fun x hx => List.mem_append_right _ hx
  constructor
  · intro hroot
    rcases Nat.le_total t.depth t'.depth with hle | hle
    · rcases eq_or_quotes ht ht' hfree hin hin' hle hroot with h | h
      · exact .inl h
      · exact .inr (.inl h)
    · rcases eq_or_quotes ht' ht hfree hin' hin hle hroot.symm with h | h
      · exact .inl h.symm
      · exact .inr (.inr h)
  · rintro (h | h)
    · exact root_eq_of_quotes ht h
    · exact (root_eq_of_quotes ht' h).symm

/-! ### A root with two contents -/

/-- 64 zeros, which two chunks of 32 hold. -/
def zeros : Bytes := List.replicate 64 0

/-- The digests of the two chunks of `zeros`, one after the other. -/
def quotation : Bytes :=
  let d := Digest.ofLeaf (List.replicate 32 0)
  d.bytes ++ d.bytes

theorem exists_trees : ∃ t t', Tree.ofContent quotation 64 = .ok t ∧
    Tree.ofContent zeros 32 = .ok t' ∧ t.Quotes quotation t' := by
  have hlen : quotation.length = 64 := by
    unfold quotation
    rw [List.length_append, Digest.length_bytes]
  have hlayout : Layout.ofSizes quotation.length 64 =
      .ok ⟨64, 64, by decide, by decide, by decide⟩ := by
    rw [hlen]
    rfl
  have hlayout' : Layout.ofSizes zeros.length 32 =
      .ok ⟨64, 32, by decide, by decide, by decide⟩ := rfl
  obtain ⟨t, ht, hl⟩ := exists_ofContent hlayout
  obtain ⟨t', ht', hl'⟩ := exists_ofContent hlayout'
  have hdepth : t.depth = 0 := by
    unfold depth leafCount; rw [hl]; rfl
  have hdepth' : t'.depth = 1 := by
    unfold depth leafCount; rw [hl']; rfl
  obtain ⟨-, -, hleaves'⟩ := ofContent_eq_ok_iff.1 ht'
  refine ⟨t, t', ht, ht', by rw [hdepth, hdepth']; decide, ?_⟩
  have hone : 0 + 1 ≤ t'.depth := Nat.le_of_eq hdepth'.symm
  rw [hdepth, t'.row_eq_raise hone, hdepth', hleaves', hl, hl']
  decide +kernel

theorem collisionFree_trees : CollisionFree (treeInputs (64 : UInt32).toNat quotation ++
    treeInputs (32 : UInt32).toNat zeros) := by
  decide +kernel

/-- Equal roots and sizes do not make equal content, though no two of the strings
hashed collide. -/
theorem root_of_two_contents : ¬ ∀ (D D' : Bytes) (c c' : UInt32) (t t' : Tree),
    D.length = D'.length → Tree.ofContent D c = .ok t → Tree.ofContent D' c' = .ok t' →
      CollisionFree (treeInputs c.toNat D ++ treeInputs c'.toNat D') → t.root = t'.root →
        D = D' := by
  intro h
  obtain ⟨t, t', ht, ht', hquotes⟩ := exists_trees
  have heq := h quotation zeros 64 32 t t' (by decide +kernel) ht ht' collisionFree_trees
    (root_eq_of_quotes ht hquotes)
  exact absurd heq (by decide +kernel)

/-- The two contents have a tree each, one quotes the other, and they share the
root. -/
theorem content_of_root_eq_quotation : ∃ t t', Tree.ofContent quotation 64 = .ok t ∧
    Tree.ofContent zeros 32 = .ok t' ∧
      CollisionFree (treeInputs (64 : UInt32).toNat quotation ++
        treeInputs (32 : UInt32).toNat zeros) ∧ t.root = t'.root := by
  obtain ⟨t, t', ht, ht', hquotes⟩ := exists_trees
  exact ⟨t, t', ht, ht', collisionFree_trees,
    (content_of_root_eq ht ht' collisionFree_trees).2 (.inl hquotes)⟩

end Tree
end VerifiedCopy
