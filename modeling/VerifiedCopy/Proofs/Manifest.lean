/-
# A manifest is another form of a tree

The manifest of a tree is turned back into the tree. A manifest is turned into a tree if
its sizes make a layout, its leaves are digests, one for each chunk, and the root over
them is the root that is written down, in lower case. Then it is the manifest of that
tree, but for the time and the case of the letters in the leaves (`toTree_eq_ok_iff`).

A manifest that is refused is refused for the first of its faults, in the order: sizes,
the first leaf that is no digest, number of leaves, root (`toTree_eq_iff`).

Key definitions: `Digest.Spelled`, `Manifest.Judged`.
Key theorems: `Digest.exists_ofHex_iff`, `readLeaves_eq_ok_iff`, `readLeaves_eq_error_iff`,
`toTree_eq_ok_iff`, `toTree_eq_iff`, `conversion_lossless`.
-/
import VerifiedCopy.Entry
import VerifiedCopy.Proofs.Digest
import VerifiedCopy.Proofs.Session
import VerifiedCopy.Proofs.Tree.Heap

namespace VerifiedCopy

/-! ### Texts that are digests -/

namespace Hex

/-- A hexadecimal digit of either case. -/
def IsDigit (c : Char) : Prop :=
  ('0' ≤ c ∧ c ≤ '9') ∨ ('a' ≤ c ∧ c ≤ 'f') ∨ ('A' ≤ c ∧ c ≤ 'F')

instance (c : Char) : Decidable (IsDigit c) :=
  inferInstanceAs (Decidable (_ ∨ _ ∨ _))

theorem isDigit_iff_of_lt : ∀ n < 128,
    IsDigit (Char.ofNat n) ↔ ∃ v < 16, (Char.ofNat n).toLower = digit v := by
  decide +kernel

/-- The digits are the characters that are written for the numbers below 16, up to
case. -/
theorem isDigit_iff {c : Char} : IsDigit c ↔ ∃ v < 16, c.toLower = digit v := by
  rcases Nat.lt_or_ge c.toNat 128 with hlt | hge
  · have h := isDigit_iff_of_lt c.toNat hlt
    rwa [Char.ofNat_toNat] at h
  · -- Outside of ASCII there is no digit, and no letter that becomes one in lower case.
    have hlast : ∀ x : Char, c ≤ x → x.toNat < 128 → False := fun x hx hx' =>
      absurd (Nat.le_trans hge (UInt32.le_iff_toNat_le.1 hx)) (Nat.not_le_of_lt hx')
    constructor
    · rintro (⟨-, h⟩ | ⟨-, h⟩ | ⟨-, h⟩)
      · exact (hlast _ h (by decide)).elim
      · exact (hlast _ h (by decide)).elim
      · exact (hlast _ h (by decide)).elim
    · rintro ⟨v, hv, h⟩
      exact absurd (lt_of_toLower hv h) (Nat.not_lt_of_le hge)

theorem length_encode : ∀ d : Bytes, (encode d).length = 2 * d.length
  | [] => rfl
  | x :: xs => by
    rw [encode, List.length_cons, List.length_cons, length_encode xs, List.length_cons]
    omega

/-- Every character that is written is that of a number below 16. -/
theorem exists_digit_of_mem {c : Char} : ∀ {d : Bytes}, c ∈ encode d → ∃ v < 16, c = digit v
  | [], h => by cases h
  | x :: xs, h => by
    have hx := x.toNat_lt
    rw [encode, List.mem_cons, List.mem_cons] at h
    rcases h with h | h | h
    · exact ⟨_, by omega, h⟩
    · exact ⟨_, by omega, h⟩
    · exact exists_digit_of_mem h

/-- A row of digits, two for each byte, is the written form of some bytes. -/
theorem exists_encode : ∀ {n : Nat} {cs : List Char}, cs.length = 2 * n →
    (∀ c ∈ cs, IsDigit c) → ∃ d : Bytes, d.length = n ∧ cs.map Char.toLower = encode d
  | 0, cs, hlen, _ => by
    obtain rfl := List.length_eq_zero_iff.1 hlen
    exact ⟨[], rfl, rfl⟩
  | n + 1, [], hlen, _ => by
    rw [List.length_nil] at hlen
    omega
  | n + 1, [_], hlen, _ => by
    rw [List.length_singleton] at hlen
    omega
  | n + 1, c :: c' :: cs, hlen, h => by
    obtain ⟨v, hv, hc⟩ := isDigit_iff.1 (h c (by simp))
    obtain ⟨v', hv', hc'⟩ := isDigit_iff.1 (h c' (by simp))
    rw [List.length_cons, List.length_cons] at hlen
    have hlen' : cs.length = 2 * n := by omega
    obtain ⟨d, hd, hcs⟩ := exists_encode hlen'
      (fun x hx => h x (List.mem_cons_of_mem _ (List.mem_cons_of_mem _ hx)))
    refine ⟨UInt8.ofNat (16 * v + v') :: d, by rw [List.length_cons, hd], ?_⟩
    rw [List.map_cons, List.map_cons, hc, hc', hcs, encode_cons_of_values hv hv']

end Hex

namespace Digest

/-- Sixty-four hexadecimal digits of either case. -/
structure Spelled (s : String) : Prop where
  length : s.length = 64
  digits : ∀ c ∈ s.toList, Hex.IsDigit c

/-- The texts that are read as a digest. -/
theorem exists_ofHex_iff {s : String} : (∃ d, ofHex s = .ok d) ↔ Spelled s := by
  constructor
  · rintro ⟨d, hd⟩
    have hrow := toLower_eq_hex_iff.1 (ofHex_eq_ok_iff.1 hd)
    refine ⟨?_, fun c hc => ?_⟩
    · have hlen := congrArg List.length hrow
      rw [List.length_map, String.length_toList, Hex.length_encode, d.length_bytes] at hlen
      exact hlen
    · have hmem := List.mem_map_of_mem (f := Char.toLower) hc
      rw [hrow] at hmem
      exact Hex.isDigit_iff.2 (Hex.exists_digit_of_mem hmem)
  · rintro ⟨hlen, hdigits⟩
    have hlen' : s.toList.length = 2 * 32 := by rw [String.length_toList, hlen]
    obtain ⟨b, hb, hrow⟩ := Hex.exists_encode hlen' hdigits
    exact ⟨⟨b, hb⟩, ofHex_eq_ok_iff.2 (toLower_eq_hex_iff.2 hrow)⟩

theorem hex_injective {d d' : Digest} (h : d.hex = d'.hex) : d = d' := by
  have hread := ofHex_hex d
  rw [h, ofHex_hex] at hread
  exact (Except.ok.inj hread).symm

end Digest

namespace Manifest

variable {m : Manifest} {t : Tree} {e : Error}

/-! ### The leaves of a manifest -/

theorem readLeaves_eq_ok_iff : ∀ {i : Nat} {ss : List String} {ds : List Digest},
    readLeaves i ss = .ok ds ↔ ss.map String.toLower = ds.map Digest.hex
  | i, [], ds => by
    rw [readLeaves, List.map_nil, eq_comm (a := []), List.map_eq_nil_iff]
    exact ⟨fun h => (Except.ok.inj h).symm, fun h => by rw [h]⟩
  | i, s :: ss, ds => by
    rw [List.map_cons, eq_comm (b := ds.map _), List.map_eq_cons_iff]
    unfold readLeaves
    cases hs : Digest.ofHex s with
    | error why =>
      refine ⟨(nomatch ·), ?_⟩
      rintro ⟨d, ds', rfl, hd, -⟩
      cases hs.symm.trans (Digest.ofHex_eq_ok_iff.2 hd.symm)
    | ok d =>
      have hlower := Digest.ofHex_eq_ok_iff.1 hs
      dsimp only
      rw [map_eq_ok_iff]
      constructor
      · rintro ⟨ds', hds', rfl⟩
        exact ⟨d, ds', rfl, hlower.symm, (readLeaves_eq_ok_iff.1 hds').symm⟩
      · rintro ⟨d', ds', rfl, hd', hds'⟩
        obtain rfl := Digest.hex_injective (hd'.trans hlower)
        exact ⟨ds', readLeaves_eq_ok_iff.2 hds'.symm, rfl⟩

/-- Leaves are refused for the first of them that is no digest. -/
theorem readLeaves_eq_error_iff : ∀ {i : Nat} {ss : List String} {e : Error},
    readLeaves i ss = .error e ↔ ∃ k s why, ss[k]? = some s ∧
      (∀ s' ∈ ss.take k, Digest.Spelled s') ∧ Digest.ofHex s = .error why ∧
      e = .format s!"manifest leaf {i + k}: {why.message}"
  | i, [], e => ⟨(nomatch ·), fun ⟨_, _, _, h, _⟩ => nomatch h⟩
  | i, s :: ss, e => by
    unfold readLeaves
    cases hs : Digest.ofHex s with
    | error why =>
      constructor
      · intro h
        exact ⟨0, s, why, rfl, List.forall_mem_nil _, hs, (Except.error.inj h).symm⟩
      · rintro ⟨k, s', why', hk, hbefore, hs', rfl⟩
        cases k with
        | zero =>
          cases hk
          cases hs.symm.trans hs'
          rfl
        | succ k =>
          obtain ⟨d, hd⟩ := Digest.exists_ofHex_iff.2 (hbefore s List.mem_cons_self)
          cases hs.symm.trans hd
    | ok d =>
      -- The first fault is that of the rest, one place further on.
      have hshift : ∀ k, i + 1 + k = i + (k + 1) := fun k => by omega
      have herror : (readLeaves (i + 1) ss).map (d :: ·) = .error e ↔
          readLeaves (i + 1) ss = .error e := by
        cases readLeaves (i + 1) ss with
        | error e' => exact ⟨fun h => h, fun h => h⟩
        | ok ds => exact ⟨(nomatch ·), (nomatch ·)⟩
      dsimp only
      rw [herror, readLeaves_eq_error_iff]
      constructor
      · rintro ⟨k, s', why, hk, hbefore, hs', rfl⟩
        refine ⟨k + 1, s', why, hk, ?_, hs', by rw [hshift]⟩
        intro x hx
        rcases List.mem_cons.1 hx with rfl | hx
        · exact Digest.exists_ofHex_iff.1 ⟨d, hs⟩
        · exact hbefore x hx
      · rintro ⟨k, s', why, hk, hbefore, hs', rfl⟩
        cases k with
        | zero =>
          cases hk
          cases hs.symm.trans hs'
        | succ k =>
          exact ⟨k, s', why, hk, fun x hx => hbefore x (List.mem_cons_of_mem _ hx), hs',
            by rw [hshift]⟩

/-- Leaves that are digests are read. -/
theorem exists_leaves_iff {ss : List String} :
    (∀ s ∈ ss, Digest.Spelled s) ↔
      ∃ ds : List Digest, ss.map String.toLower = ds.map Digest.hex := by
  constructor
  · intro h
    cases hread : readLeaves 0 ss with
    | ok ds => exact ⟨ds, readLeaves_eq_ok_iff.1 hread⟩
    | error e =>
      obtain ⟨k, s, why, hk, -, hs, -⟩ := readLeaves_eq_error_iff.1 hread
      obtain ⟨d, hd⟩ := Digest.exists_ofHex_iff.2 (h s (List.mem_of_getElem? hk))
      cases hs.symm.trans hd
  · rintro ⟨ds, hds⟩ s hs
    have hmem := List.mem_map_of_mem (f := String.toLower) hs
    rw [hds] at hmem
    obtain ⟨d, -, hd⟩ := List.mem_map.1 hmem
    exact Digest.exists_ofHex_iff.1 ⟨d, Digest.ofHex_eq_ok_iff.2 hd.symm⟩

/-! ### The tree of a manifest -/

/-- A manifest is that of its tree, but for the time and the case of the letters in the
leaves. -/
theorem toTree_eq_ok_iff : m.toTree = .ok t ↔
    t.layout.totalSize = m.totalSize.toNat ∧ t.layout.chunkSize = m.chunkSize.toNat ∧
      m.leavesHex.map String.toLower = t.leaves.map Digest.hex ∧ m.rootHex = t.root.hex := by
  unfold toTree
  rw [bind_eq_ok_iff]
  constructor
  · rintro ⟨l, hl, h⟩
    obtain ⟨ds, hds, h⟩ := bind_eq_ok_iff.1 h
    obtain ⟨t', ht', h⟩ := bind_eq_ok_iff.1 h
    split at h
    · rename_i hroot
      obtain rfl : t' = t := Except.ok.inj h
      obtain ⟨rfl, rfl⟩ := Tree.build_eq_ok_iff.1 ht'
      obtain ⟨htotal, hsize⟩ := Layout.ofSizes_eq_ok_iff.1 hl
      exact ⟨htotal, hsize, readLeaves_eq_ok_iff.1 hds, hroot.symm⟩
    · cases h
  · rintro ⟨htotal, hsize, hleaves, hroot⟩
    refine ⟨t.layout, Layout.ofSizes_eq_ok_iff.2 ⟨htotal, hsize⟩, ?_⟩
    refine bind_eq_ok_iff.2 ⟨t.leaves, readLeaves_eq_ok_iff.2 hleaves, ?_⟩
    refine bind_eq_ok_iff.2 ⟨t, Tree.build_eq_ok_iff.2 ⟨rfl, rfl⟩, ?_⟩
    rw [if_pos hroot.symm]
    rfl

theorem toTree_ofTree (t : Tree) (createdUtc : String) : (ofTree createdUtc t).toTree = .ok t := by
  refine toTree_eq_ok_iff.2 ⟨?_, ?_, ?_, rfl⟩
  · exact (UInt64.toNat_ofNat_of_lt' t.layout.totalSize_lt).symm
  · exact (UInt32.toNat_ofNat_of_lt' t.layout.chunkSize_lt).symm
  · refine (List.map_map ..).trans (List.map_congr_left fun d _ => ?_)
    exact d.toLower_hex

theorem ofTree_of_toTree (h : m.toTree = .ok t) (createdUtc : String) :
    ofTree createdUtc t =
      { m with createdUtc := createdUtc, leavesHex := m.leavesHex.map String.toLower } := by
  obtain ⟨htotal, hsize, hleaves, hroot⟩ := toTree_eq_ok_iff.1 h
  unfold ofTree
  rw [htotal, hsize, hleaves, hroot, UInt64.ofNat_toNat, UInt32.ofNat_toNat]

/-- The root that a manifest declares is read as the root of its tree. -/
theorem publishedRoot_of_toTree (h : m.toTree = .ok t) {entry : Entry}
    (hm : entry.manifest = some m) (hroot : entry.explicitRoot = none) :
    entry.publishedRoot = some t.root := by
  obtain ⟨-, -, -, hhex⟩ := toTree_eq_ok_iff.1 h
  unfold Entry.publishedRoot
  rw [hroot, hm]
  exact congrArg Except.toOption (hhex ▸ Digest.ofHex_hex t.root)

/-! ### The order of the checks -/

/-- The root over some leaves. -/
def rootOver (leaves : List Digest) : Digest :=
  rootOf (depthFor leaves.length) (paddedRow leaves)

theorem rootOver_leaves (t : Tree) : rootOver t.leaves = t.root := by
  rw [t.root_eq_rootOf, t.depth_leaves, rootOver]

/-- What a manifest comes to: a tree, or the first of its faults. -/
inductive Judged (m : Manifest) : Except Error Tree → Prop where
  | sizes {e : Error} (hl : Layout.ofSizes m.totalSize.toNat m.chunkSize = .error e) :
    Judged m (.error e)
  | leaf {l : Layout} {k : Nat} {s : String} {why : HexError}
    (hl : Layout.ofSizes m.totalSize.toNat m.chunkSize = .ok l)
    (hbefore : ∀ s' ∈ m.leavesHex.take k, Digest.Spelled s')
    (hk : m.leavesHex[k]? = some s) (hs : Digest.ofHex s = .error why) :
    Judged m (.error (.format s!"manifest leaf {k}: {why.message}"))
  | count {l : Layout} (hl : Layout.ofSizes m.totalSize.toNat m.chunkSize = .ok l)
    (hspelled : ∀ s ∈ m.leavesHex, Digest.Spelled s)
    (hcount : m.leavesHex.length ≠ l.chunkCount) :
    Judged m (.error (.treeMismatch s!"{l.chunkCount} leaves" s!"{m.leavesHex.length} leaves"))
  | root {l : Layout} {ds : List Digest}
    (hl : Layout.ofSizes m.totalSize.toNat m.chunkSize = .ok l)
    (hleaves : m.leavesHex.map String.toLower = ds.map Digest.hex)
    (hcount : m.leavesHex.length = l.chunkCount) (hroot : (rootOver ds).hex ≠ m.rootHex) :
    Judged m (.error (.treeMismatch m.rootHex (rootOver ds).hex))
  | tree {t : Tree} (hl : Layout.ofSizes m.totalSize.toNat m.chunkSize = .ok t.layout)
    (hleaves : m.leavesHex.map String.toLower = t.leaves.map Digest.hex)
    (hroot : (rootOver t.leaves).hex = m.rootHex) :
    Judged m (.ok t)

theorem length_of_leaves {ss : List String} {ds : List Digest}
    (h : ss.map String.toLower = ds.map Digest.hex) :
    ss.length = ds.length := by
  have hlen := congrArg List.length h
  rwa [List.length_map, List.length_map] at hlen

theorem build_eq_error_iff {l : Layout} {ds : List Digest} :
    Tree.build l ds = .error e ↔ ds.length ≠ l.chunkCount ∧
      e = .treeMismatch s!"{l.chunkCount} leaves" s!"{ds.length} leaves" := by
  unfold Tree.build
  split
  · rename_i hlen
    refine ⟨fun h => ?_, fun h => absurd hlen h.1⟩
    cases h
  · rename_i hlen
    exact ⟨fun h => ⟨hlen, (Except.error.inj h).symm⟩, fun h => congrArg Except.error h.2.symm⟩

theorem judged_of_error (h : m.toTree = .error e) : Judged m (.error e) := by
  unfold toTree at h
  rcases bind_eq_error_iff.1 h with hl | ⟨l, hl, hrest⟩
  · exact .sizes hl
  rcases bind_eq_error_iff.1 hrest with hread | ⟨ds, hread, hbuilt⟩
  · obtain ⟨k, s, why, hk, hbefore, hs, rfl⟩ := readLeaves_eq_error_iff.1 hread
    rw [Nat.zero_add]
    exact .leaf hl hbefore hk hs
  have hleaves := readLeaves_eq_ok_iff.1 hread
  have hlen := length_of_leaves hleaves
  rcases bind_eq_error_iff.1 hbuilt with hbuild | ⟨t, hbuild, hchecked⟩
  · obtain ⟨hcount, rfl⟩ := build_eq_error_iff.1 hbuild
    rw [← hlen] at hcount ⊢
    exact .count hl (exists_leaves_iff.2 ⟨ds, hleaves⟩) hcount
  · obtain ⟨rfl, rfl⟩ := Tree.build_eq_ok_iff.1 hbuild
    split at hchecked
    · cases hchecked
    · rename_i hroot
      cases hchecked
      rw [← rootOver_leaves] at hroot ⊢
      exact .root hl hleaves (hlen.trans t.length_leaves) hroot

theorem toTree_of_judged {r : Except Error Tree} (h : Judged m r) : m.toTree = r := by
  cases h with
  | sizes hl => exact bind_eq_error_iff.2 (.inl hl)
  | leaf hl hbefore hk hs =>
    refine bind_eq_error_iff.2 (.inr ⟨_, hl, bind_eq_error_iff.2 (.inl ?_)⟩)
    exact readLeaves_eq_error_iff.2 ⟨_, _, _, hk, hbefore, hs, by rw [Nat.zero_add]⟩
  | count hl hspelled hcount =>
    obtain ⟨ds, hleaves⟩ := exists_leaves_iff.1 hspelled
    rw [length_of_leaves hleaves] at hcount ⊢
    refine bind_eq_error_iff.2 (.inr ⟨_, hl, bind_eq_error_iff.2 (.inr ⟨ds, ?_, ?_⟩)⟩)
    · exact readLeaves_eq_ok_iff.2 hleaves
    · exact bind_eq_error_iff.2 (.inl (build_eq_error_iff.2 ⟨hcount, rfl⟩))
  | @root l ds hl hleaves hcount hroot =>
    rw [length_of_leaves hleaves] at hcount
    obtain ⟨t, ht⟩ : ∃ t, Tree.build l ds = .ok t := ⟨_, dif_pos hcount⟩
    obtain ⟨-, rfl⟩ := Tree.build_eq_ok_iff.1 ht
    refine bind_eq_error_iff.2 (.inr ⟨_, hl, bind_eq_error_iff.2 (.inr ⟨t.leaves, ?_, ?_⟩)⟩)
    · exact readLeaves_eq_ok_iff.2 hleaves
    · rw [rootOver_leaves] at hroot ⊢
      refine bind_eq_error_iff.2 (.inr ⟨t, ht, ?_⟩)
      rw [if_neg hroot]
      rfl
  | @tree t hl hleaves hroot =>
    obtain ⟨htotal, hsize⟩ := Layout.ofSizes_eq_ok_iff.1 hl
    rw [rootOver_leaves] at hroot
    exact toTree_eq_ok_iff.2 ⟨htotal, hsize, hleaves, hroot.symm⟩

/-- A manifest is refused for the first of its faults, and makes a tree if it has none. -/
theorem toTree_eq_iff {r : Except Error Tree} : m.toTree = r ↔ Judged m r := by
  refine ⟨fun h => ?_, toTree_of_judged⟩
  cases r with
  | error e => exact judged_of_error h
  | ok t =>
    obtain ⟨htotal, hsize, hleaves, hroot⟩ := toTree_eq_ok_iff.1 h
    exact .tree (Layout.ofSizes_eq_ok_iff.2 ⟨htotal, hsize⟩) hleaves
      (by rw [rootOver_leaves, hroot])

/-- The manifests that make a tree. -/
theorem exists_toTree_iff : (∃ t, m.toTree = .ok t) ↔ ∃ (l : Layout) (ds : List Digest),
    Layout.ofSizes m.totalSize.toNat m.chunkSize = .ok l ∧
      (∀ s ∈ m.leavesHex, Digest.Spelled s) ∧ m.leavesHex.length = l.chunkCount ∧
      m.leavesHex.map String.toLower = ds.map Digest.hex ∧ (rootOver ds).hex = m.rootHex := by
  constructor
  · rintro ⟨t, ht⟩
    obtain ⟨htotal, hsize, hleaves, hroot⟩ := toTree_eq_ok_iff.1 ht
    refine ⟨t.layout, t.leaves, Layout.ofSizes_eq_ok_iff.2 ⟨htotal, hsize⟩,
      exists_leaves_iff.2 ⟨_, hleaves⟩, ?_, hleaves, ?_⟩
    · exact (length_of_leaves hleaves).trans t.length_leaves
    · rw [rootOver_leaves, hroot]
  · rintro ⟨l, ds, hl, -, hcount, hleaves, hroot⟩
    rw [length_of_leaves hleaves] at hcount
    obtain ⟨t, ht⟩ : ∃ t, Tree.build l ds = .ok t := ⟨_, dif_pos hcount⟩
    obtain ⟨rfl, rfl⟩ := Tree.build_eq_ok_iff.1 ht
    exact ⟨t, toTree_of_judged (.tree hl hleaves hroot)⟩

/-- Manifests and trees are turned into each other without loss. The manifest of a tree,
made at any time, makes the tree again. A manifest makes a tree exactly if its sizes are
those of a layout, every leaf is 64 digits of either case, there is a leaf for each chunk,
and the root over the leaves, in lower case, is what is written down. It is then the
manifest of that tree, but for the time and the case of the letters in the leaves, and an
entry that has it and no root of its own publishes the root of the tree. What a manifest
comes to is the first fault in the order of `Judged`. -/
theorem conversion_lossless :
    (∀ (t : Tree) (createdUtc : String), (ofTree createdUtc t).toTree = .ok t) ∧
    (∀ m : Manifest, (∃ t, m.toTree = .ok t) ↔ ∃ (l : Layout) (ds : List Digest),
      Layout.ofSizes m.totalSize.toNat m.chunkSize = .ok l ∧
        (∀ s ∈ m.leavesHex, Digest.Spelled s) ∧ m.leavesHex.length = l.chunkCount ∧
        m.leavesHex.map String.toLower = ds.map Digest.hex ∧ (rootOver ds).hex = m.rootHex) ∧
    (∀ (m : Manifest) (t : Tree), m.toTree = .ok t →
      (∀ createdUtc, ofTree createdUtc t =
        { m with createdUtc := createdUtc, leavesHex := m.leavesHex.map String.toLower }) ∧
      ∀ entry : Entry, entry.manifest = some m → entry.explicitRoot = none →
        entry.publishedRoot = some t.root) ∧
    ∀ (m : Manifest) (r : Except Error Tree), m.toTree = r ↔ Judged m r :=
  ⟨toTree_ofTree, fun _ => exists_toTree_iff,
    fun _ _ h => ⟨ofTree_of_toTree h, fun _ hm hroot => publishedRoot_of_toTree h hm hroot⟩,
    fun _ _ => toTree_eq_iff⟩

/-- The digests of the letters, taken three at a time. -/
def threes : List Digest := (Bytes.pieces 3 Session.letters).map Digest.ofLeaf

/-- The tree of the letters in three chunks: one leaf of its last row is padding. -/
def threesTree : Tree where
  layout := ⟨8, 3, Nat.le_of_ble_eq_true rfl, Nat.le_of_ble_eq_true rfl, Nat.le_of_ble_eq_true rfl⟩
  nodes := (heapOfLeaves threes).toArray
  built := ⟨threes, rfl, rfl⟩

/-- The manifest of that tree, with the leaves in capitals. -/
def capitalThrees : Manifest where
  createdUtc := ""
  totalSize := 8
  chunkSize := 3
  rootHex := "c67b306c7dde477b83f0ef7fcf636e89000511e41f9e4f76d884a3e250001d04"
  leavesHex := [
    "6437B3AC38465133FFB63B75273A8DB548C558465D79DB03FD359C6CD5BD9D85",
    "A96FC3234AF09BFDD8572DBF779FBF5E3E5DC9C1F2D5AA236D8ED0AA2A1EA323",
    "63109B53317F303DF643FD1311C1C6652FBDDF9B4AC8D4666C1FBD7E606C9311"]

theorem conversion_lossless_letters :
    capitalThrees.toTree = .ok threesTree ∧ threesTree.leafCount = 3 ∧
      (∀ createdUtc, ofTree createdUtc threesTree = { capitalThrees with
        createdUtc := createdUtc
        leavesHex := capitalThrees.leavesHex.map String.toLower }) ∧
      ({ remoteUrl := "", totalSize := 8, manifest := some capitalThrees } : Entry).publishedRoot =
        some threesTree.root := by
  have hmade : capitalThrees.toTree = .ok threesTree := eq_ok_of_toOption (by decide +kernel)
  obtain ⟨hform, hroot⟩ := conversion_lossless.2.2.1 capitalThrees threesTree hmade
  exact ⟨hmade, rfl, hform, hroot _ rfl rfl⟩

end Manifest
end VerifiedCopy
