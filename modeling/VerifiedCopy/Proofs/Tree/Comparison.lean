/-
# Comparing trees, and a local file with a tree

Two trees of one layout are compared by their roots first, and leaf by leaf only if
these differ. Either way the chunks that differ are returned (`Tree.differing`): equal
roots leave none, because the root binds the whole last row as long as no two of the
strings hashed for the two trees collide (`Tree.leaves_of_root`). Even where they do
collide, nothing is returned exactly if the roots are equal (`Tree.diff_eq_nil_iff`),
since equal leaves make equal roots.

A local file is compared with a tree through the tree of its content
(`Tree.ofFile_eq`). There the digest of every chunk is that of the bytes in its range,
so the chunks that differ are those whose bytes do not pass (`Tree.mem_differing_iff`).

Key definitions: `Tree.inputs`, `Tree.differing`.
Key theorems: `Tree.differences_eq`, `Tree.leaves_of_root`, `Tree.diff_eq_differing`,
`Tree.diff_eq_nil_iff`, `Tree.diff_exact`, `Tree.ofFile_eq`, `Tree.mem_differing_iff`,
`Tree.verifyLocal_exact`.
-/
import VerifiedCopy.Proofs.Bringing
import VerifiedCopy.Proofs.Tree.Heap
import VerifiedCopy.Tree.Store

namespace VerifiedCopy
namespace Tree

variable {a b t t' found : Tree} {i : Nat} {F : Bytes} {c : UInt32} {p : Path} {d : Disk}

/-! ### The chunks that differ -/

/-- The strings hashed for the nodes above the leaves. -/
def inputs (t : Tree) : List Bytes :=
  nodeInputs t.depth (paddedRow t.leaves)

/-- The chunks of `a` for which `b` has another digest, ascending. -/
def differing (a b : Tree) : List Nat :=
  (List.range a.leafCount).filter fun i => a.leaf? i ≠ b.leaf? i

theorem mem_differing : i ∈ a.differing b ↔ i < a.leafCount ∧ a.leaf? i ≠ b.leaf? i := by
  unfold differing
  rw [List.mem_filter, List.mem_range, decide_eq_true_iff]

theorem sorted_differing (a b : Tree) : (a.differing b).Pairwise (· < ·) :=
  List.pairwise_lt_range.filter _

theorem length_differing_le (a b : Tree) : (a.differing b).length ≤ a.leafCount := by
  calc (a.differing b).length ≤ (List.range a.leafCount).length := List.length_filter_le _ _
    _ = a.leafCount := List.length_range

theorem leafCount_congr (hl : a.layout = b.layout) : a.leafCount = b.leafCount :=
  congrArg Layout.chunkCount hl

theorem depth_congr (hl : a.layout = b.layout) : a.depth = b.depth :=
  congrArg depthFor (leafCount_congr hl)

theorem length_leaves_congr (hl : a.layout = b.layout) : a.leaves.length = b.leaves.length := by
  rw [a.length_leaves, b.length_leaves, leafCount_congr hl]

theorem differing_comm (hl : a.layout = b.layout) : a.differing b = b.differing a := by
  unfold differing
  rw [leafCount_congr hl]
  apply List.filter_congr
  intro i _
  exact decide_eq_decide.2 ne_comm

theorem differing_eq_nil_iff (hl : a.layout = b.layout) :
    a.differing b = [] ↔ a.leaves = b.leaves := by
  constructor
  · intro h
    apply List.ext_getElem?
    intro i
    rw [← leaf?_eq_getElem?, ← leaf?_eq_getElem?]
    by_cases hi : i < a.leafCount
    · by_cases heq : a.leaf? i = b.leaf? i
      · exact heq
      · have hmem := mem_differing.2 ⟨hi, heq⟩
        rw [h] at hmem
        cases hmem
    · unfold leaf?
      rw [if_neg hi, if_neg (leafCount_congr hl ▸ hi)]
  · intro h
    rw [eq_of_leaves hl h]
    apply List.filter_eq_nil_iff.2
    intro i _
    simp

/-- The recursion over two lists of one length finds the places at which they differ. -/
theorem differences_eq : ∀ (i : Nat) {as bs : List Digest}, as.length = bs.length →
    differences i as bs =
      ((List.range as.length).filter fun j => as[j]? ≠ bs[j]?).map (i + ·)
  | _, [], [], _ => rfl
  | i, x :: as, y :: bs, h => by
    have ih := differences_eq (i + 1) (Nat.succ.inj h)
    have hrest : (((List.range as.length).map Nat.succ).filter fun j =>
        (x :: as)[j]? ≠ (y :: bs)[j]?).map (i + ·) = differences (i + 1) as bs := by
      rw [ih, List.filter_map, List.map_map]
      apply List.map_congr_left
      intro j _
      exact (Nat.succ_add_eq_add_succ i j).symm
    rw [differences, List.length_cons, List.range_succ_eq_map, List.filter_cons]
    by_cases hxy : x = y
    · simp [hxy, ← hrest]
    · simp [hxy, ← hrest]

theorem differences_leaves (hl : a.layout = b.layout) :
    differences 0 a.leaves b.leaves = a.differing b := by
  rw [differences_eq 0 (length_leaves_congr hl), a.length_leaves]
  unfold differing
  simp [leaf?_eq_getElem?]

/-! ### The comparison of the roots -/

theorem diff_of_layout (hl : a.layout = b.layout) :
    a.diff b = .ok (if a.root = b.root then [] else a.differing b) := by
  unfold diff
  rw [if_pos hl, differences_leaves hl]
  split <;> rfl

/-- The root binds the leaves, unless digests collide. -/
theorem leaves_of_root (hl : a.layout = b.layout) (hfree : CollisionFree (a.inputs ++ b.inputs))
    (hroot : a.root = b.root) : a.leaves = b.leaves := by
  have hrow : paddedRow a.leaves = b.row a.depth :=
    lastRow_eq_row hfree (fun _ hx => List.mem_append_left _ hx)
      (fun _ hx => List.mem_append_right _ hx) (Nat.le_of_eq (depth_congr hl)) hroot
  have hlast : paddedRow a.leaves = paddedRow b.leaves := by
    rw [hrow, depth_congr hl, row_depth]
  exact (List.append_inj hlast (length_leaves_congr hl)).1

theorem root_of_leaves (hl : a.layout = b.layout) (h : a.leaves = b.leaves) : a.root = b.root :=
  congrArg root (eq_of_leaves hl h)

/-- The shortcut returns what the comparison of all leaves would. -/
theorem diff_eq_differing (hl : a.layout = b.layout)
    (hfree : CollisionFree (a.inputs ++ b.inputs)) : a.diff b = .ok (a.differing b) := by
  rw [diff_of_layout hl]
  by_cases hroot : a.root = b.root
  · rw [if_pos hroot, (differing_eq_nil_iff hl).2 (leaves_of_root hl hfree hroot)]
  · rw [if_neg hroot]

/-- Nothing is found exactly if the roots are equal, whatever collides. -/
theorem diff_eq_nil_iff (hl : a.layout = b.layout) : a.diff b = .ok [] ↔ a.root = b.root := by
  rw [diff_of_layout hl, Except.ok.injEq]
  by_cases hroot : a.root = b.root
  · rw [if_pos hroot]
    exact iff_of_true rfl hroot
  · rw [if_neg hroot]
    refine iff_of_false (fun hnil => hroot ?_) hroot
    exact root_of_leaves hl ((differing_eq_nil_iff hl).1 hnil)

theorem diff_comm (hl : a.layout = b.layout) : a.diff b = b.diff a := by
  rw [diff_of_layout hl, diff_of_layout hl.symm, differing_comm hl]
  simp only [eq_comm]

theorem diff_of_ne (hl : a.layout ≠ b.layout) :
    a.diff b = .error (.treeMismatch a.layout.describe b.layout.describe) := by
  unfold diff
  rw [if_neg hl]

/-- A comparison of two trees of one layout returns the chunks whose digests differ, in
ascending order, and trees with equal roots have equal leaves, as long as no two of the
strings hashed collide. In any case the order of the trees makes no difference for what
is returned, and a comparison is refused exactly if the layouts differ. -/
theorem diff_exact (a b : Tree) :
    (a.layout = b.layout → CollisionFree (a.inputs ++ b.inputs) →
      (∃ L, a.diff b = .ok L ∧ L.Pairwise (· < ·) ∧
        ∀ i, i ∈ L ↔ i < a.leafCount ∧ a.leaf? i ≠ b.leaf? i) ∧
      (a.root = b.root → a.leaves = b.leaves)) ∧
    (∀ L, a.diff b = .ok L ↔ b.diff a = .ok L) ∧
    (∀ e, a.diff b = .error e ↔
      a.layout ≠ b.layout ∧ e = .treeMismatch a.layout.describe b.layout.describe) := by
  refine ⟨fun hl hfree => ⟨?_, leaves_of_root hl hfree⟩, ?_, ?_⟩
  · exact ⟨_, diff_eq_differing hl hfree, sorted_differing a b, fun _ => mem_differing⟩
  · intro L
    by_cases hl : a.layout = b.layout
    · rw [diff_comm hl]
    · rw [diff_of_ne hl, diff_of_ne (Ne.symm hl)]
      exact iff_of_false (nomatch ·) (nomatch ·)
  · intro e
    by_cases hl : a.layout = b.layout
    · rw [diff_of_layout hl]
      exact iff_of_false (nomatch ·) (fun h => h.1 hl)
    · rw [diff_of_ne hl, Except.error.injEq]
      exact ⟨fun h => ⟨hl, h.symm⟩, fun h => h.2.symm⟩

/-- The content of a file of two chunks. -/
def intact : Bytes := [97, 98, 99, 100, 101, 102, 103]

/-- The same with another byte in the second chunk. -/
def damaged : Bytes := [97, 98, 99, 100, 101, 0, 103]

theorem exists_damaged : ∃ t t', ofContent intact 4 = .ok t ∧ ofContent damaged 4 = .ok t' ∧
    t.layout = ⟨7, 4, by decide, by decide, by decide⟩ ∧ t'.layout = t.layout ∧
    t.leaves = [Digest.ofLeaf [97, 98, 99, 100], Digest.ofLeaf [101, 102, 103]] ∧
    t'.leaves = [Digest.ofLeaf [97, 98, 99, 100], Digest.ofLeaf [101, 0, 103]] := by
  have hlayout : Layout.ofSizes 7 4 = .ok ⟨7, 4, by decide, by decide, by decide⟩ := rfl
  obtain ⟨t, ht, hl⟩ := @exists_ofContent intact 4 _ hlayout
  obtain ⟨t', ht', hl'⟩ := @exists_ofContent damaged 4 _ hlayout
  obtain ⟨-, -, hleaves⟩ := ofContent_eq_ok_iff.1 ht
  obtain ⟨-, -, hleaves'⟩ := ofContent_eq_ok_iff.1 ht'
  rw [hl] at hleaves
  rw [hl'] at hleaves'
  exact ⟨t, t', ht, ht', hl, hl'.trans hl.symm, hleaves, hleaves'⟩

/-- The strings hashed above the leaves of the two trees do not collide. -/
theorem collisionFree_damaged (ht : t.leaves = [Digest.ofLeaf [97, 98, 99, 100],
      Digest.ofLeaf [101, 102, 103]])
    (ht' : t'.leaves = [Digest.ofLeaf [97, 98, 99, 100], Digest.ofLeaf [101, 0, 103]]) :
    CollisionFree (t.inputs ++ t'.inputs) := by
  have hdepth : t.depth = 1 := by
    rw [depth_leaves, ht]
    rfl
  have hdepth' : t'.depth = 1 := by
    rw [depth_leaves, ht']
    rfl
  unfold inputs
  rw [hdepth, hdepth', ht, ht']
  decide +kernel

/-- The comparison finds the second chunk and not the first. -/
theorem diff_exact_damaged : ∃ t t' L, ofContent intact 4 = .ok t ∧
    ofContent damaged 4 = .ok t' ∧ t.layout = t'.layout ∧
    CollisionFree (t.inputs ++ t'.inputs) ∧ t.diff t' = .ok L ∧ 0 ∉ L ∧ 1 ∈ L := by
  obtain ⟨t, t', ht, ht', hl, hl', hleaves, hleaves'⟩ := exists_damaged
  have hfree := collisionFree_damaged hleaves hleaves'
  obtain ⟨⟨L, hL, -, hmem⟩, -⟩ := (diff_exact t t').1 hl'.symm hfree
  have hcount : t.leafCount = 2 := by
    rw [← t.length_leaves, hleaves]
    rfl
  refine ⟨t, t', L, ht, ht', hl'.symm, hfree, hL, ?_, ?_⟩
  · rw [hmem, leaf?_eq_getElem?, leaf?_eq_getElem?, hleaves, hleaves']
    exact fun h => h.2 (List.getElem?_cons_zero.trans List.getElem?_cons_zero.symm)
  · rw [hmem, leaf?_eq_getElem?, leaf?_eq_getElem?, hleaves, hleaves', hcount]
    decide +kernel

/-! ### The tree of a local file -/

/-- The digest of a chunk is that of the bytes in its range. -/
theorem leaf?_of_range {r : ByteRange} (ht : ofContent F c = .ok t)
    (hr : t.layout.chunkRange? i = some r) :
    t.leaf? i = some (Digest.ofLeaf (F.slice r.start r.size)) := by
  obtain ⟨hi, -, -⟩ := Layout.chunkRange?_eq_some_iff.1 hr
  rw [(Session.leaf?_of_content ht hr).2, ← Layout.cut_eq_slice (length_of_content ht) hi,
    Layout.cut_of_range hr]

theorem ofContent_of_error {e : Error} (h : Layout.ofSizes F.length c = .error e) :
    ofContent F c = .error e := by
  unfold ofContent
  rw [h]
  rfl

/-- The tree of an open file is that of its content; an empty file is not read. -/
theorem ofHandle_eq {id : Nat} (hcalm : ∀ n op, d.weather n op p = none) :
    (ofHandle ⟨p, .file id, false⟩ (d.content id).length c d).1 = ofContent (d.content id) c := by
  unfold ofHandle
  cases hlayout : Layout.ofSizes (d.content id).length c with
  | error e =>
    rw [ofContent_of_error hlayout]
  | ok l =>
    dsimp only
    by_cases hlen : (d.content id).length = 0
    · rw [if_pos hlen]
      unfold ofContent
      rw [hlayout, List.length_eq_zero_iff.1 hlen]
      rfl
    · rw [if_neg hlen]
      unfold Disk.readAll Disk.tick
      rw [hcalm]
      rfl

/-- The tree of a local file is that of its content. -/
theorem ofFile_eq (hfile : d.content? p = some F) (hcalm : ∀ n op, d.weather n op p = none) :
    (ofFile p c d).1 = ofContent F c := by
  obtain ⟨id, hopen, rfl⟩ := Disk.openRead_of_content? hfile hcalm
  have hstat : ({ d with clock := d.clock + 1 } : Disk).stat ⟨p, .file id, false⟩ =
      (.ok (d.content id).length, { d with clock := d.clock + 1 + 1 }) := by
    unfold Disk.stat Disk.tick
    dsimp only
    rw [hcalm]
    rfl
  have hafter : ∀ n op, ({ d with clock := d.clock + 1 + 1 } : Disk).weather n op p = none :=
    hcalm
  unfold ofFile
  rw [hopen]
  dsimp only
  rw [hstat]
  exact ofHandle_eq hafter

/-! ### The comparison of a local file -/

theorem verifyLocal_eq (t : Tree) (p : Path) (d : Disk) :
    (t.verifyLocal p d).1 =
      (ofFile p (UInt32.ofNat t.layout.chunkSize) d).1 >>= fun found => t.report found p := by
  unfold verifyLocal
  cases ofFile p (UInt32.ofNat t.layout.chunkSize) d with
  | mk r d' => cases r <;> rfl

theorem report_of_layout (hl : t.layout = found.layout) {bad : List Nat}
    (hbad : t.diff found = .ok bad) : t.report found p =
      .ok ⟨t.layout.chunkCount - bad.length, bad.length, bad, found.root == t.root⟩ := by
  unfold report
  rw [if_neg (not_not_intro hl.symm), hbad]
  rfl

theorem report_of_ne (hl : found.layout ≠ t.layout) : t.report found p =
    .error (.treeMismatch t.layout.describe s!"{found.layout.describe} ({p})") := by
  unfold report
  rw [if_pos hl]
  rfl

/-- Content of the size of a tree has a tree of the same layout. -/
theorem exists_ofContent_of_length (hlen : F.length = t.layout.totalSize) :
    ∃ found, ofContent F (UInt32.ofNat t.layout.chunkSize) = .ok found ∧
      found.layout = t.layout := by
  apply exists_ofContent
  rw [hlen]
  exact t.layout.ofSizes_self

/-- Two trees of one layout report the number of the differing chunks, and none only if the
roots are equal. -/
theorem report_counts (hl : t.layout = found.layout) : ∃ bad, t.diff found = .ok bad ∧
    bad.Pairwise (· < ·) ∧ bad.length ≤ t.leafCount ∧ (found.root = t.root ↔ bad.length = 0) := by
  have hnil := diff_eq_nil_iff hl
  rw [diff_of_layout hl, Except.ok.injEq] at hnil
  refine ⟨_, diff_of_layout hl, ?_, ?_, ?_⟩
  · split
    · exact .nil
    · exact sorted_differing t found
  · split
    · exact Nat.zero_le _
    · exact length_differing_le t found
  · rw [List.length_eq_zero_iff, hnil, eq_comm]

/-- The bytes of a chunk do not pass exactly if the tree of the file has another digest. -/
theorem verifyLeaf_eq_false_iff {r : ByteRange} (ht : ofContent F c = .ok found)
    (hl : t.layout = found.layout) (hr : t.layout.chunkRange? i = some r) :
    t.verifyLeaf i (F.slice r.start r.size) = false ↔ t.leaf? i ≠ found.leaf? i := by
  have hleaf : found.leaf? i = some (Digest.ofLeaf (F.slice r.start r.size)) :=
    leaf?_of_range ht (hl ▸ hr)
  rw [hleaf, Ne, ← Site.verifyLeaf_iff, Bool.not_eq_true]

theorem mem_differing_iff (ht : ofContent F c = .ok found) (hl : t.layout = found.layout) :
    i ∈ t.differing found ↔ ∃ r, t.layout.chunkRange? i = some r ∧
      t.verifyLeaf i (F.slice r.start r.size) = false := by
  rw [mem_differing]
  constructor
  · rintro ⟨hi, hne⟩
    obtain ⟨r, hr⟩ := Layout.exists_range hi
    exact ⟨r, hr, (verifyLeaf_eq_false_iff ht hl hr).2 hne⟩
  · rintro ⟨r, hr, hfail⟩
    obtain ⟨hi, -, -⟩ := Layout.chunkRange?_eq_some_iff.1 hr
    exact ⟨hi, (verifyLeaf_eq_false_iff ht hl hr).1 hfail⟩

/-- The comparison of a local file with a tree, when no operation on the file fails. If the
file has the size of the tree, the tree made of it has the digest of the bytes in the range
of every chunk, the report counts the bad chunks and the others, and the root is right
exactly if there is no bad chunk; the bad chunks are those whose bytes do not pass, in
ascending order, as long as no two of the strings hashed for the two trees collide. A file
of another size is refused, by the layout or because the layouts differ. -/
theorem verifyLocal_exact (t : Tree) (hfile : d.content? p = some F)
    (hcalm : ∀ n op, d.weather n op p = none) :
    (F.length = t.layout.totalSize → ∃ found report,
      (ofFile p (UInt32.ofNat t.layout.chunkSize) d).1 = .ok found ∧
      (t.verifyLocal p d).1 = .ok report ∧ found.layout = t.layout ∧
      (∀ i r, t.layout.chunkRange? i = some r →
        found.leaf? i = some (Digest.ofLeaf (F.slice r.start r.size))) ∧
      report.chunksBad = report.badIndices.length ∧
      report.chunksOk + report.chunksBad = t.layout.chunkCount ∧
      (report.rootOk = true ↔ report.chunksBad = 0) ∧
      report.badIndices.Pairwise (· < ·) ∧
      (CollisionFree (t.inputs ++ found.inputs) → ∀ i, i ∈ report.badIndices ↔
        ∃ r, t.layout.chunkRange? i = some r ∧
          t.verifyLeaf i (F.slice r.start r.size) = false)) ∧
    (F.length ≠ t.layout.totalSize →
      (∃ e, Layout.ofSizes F.length (UInt32.ofNat t.layout.chunkSize) = .error e ∧
        (t.verifyLocal p d).1 = .error e) ∨
      ∃ l, Layout.ofSizes F.length (UInt32.ofNat t.layout.chunkSize) = .ok l ∧
        (t.verifyLocal p d).1 =
          .error (.treeMismatch t.layout.describe s!"{l.describe} ({p})")) := by
  rw [verifyLocal_eq, ofFile_eq hfile hcalm]
  constructor
  · intro hlen
    obtain ⟨found, hfound, hl⟩ := exists_ofContent_of_length hlen
    obtain ⟨bad, hbad, hsorted, hle, hroot⟩ := report_counts hl.symm
    have hreport : t.report found p = .ok ⟨t.layout.chunkCount - bad.length, bad.length, bad,
        found.root == t.root⟩ := report_of_layout hl.symm hbad
    refine ⟨found, _, hfound, by rw [hfound]; exact hreport, hl, ?_, rfl,
      Nat.sub_add_cancel hle, ?_, hsorted, ?_⟩
    · intro i r hr
      exact leaf?_of_range hfound (hl ▸ hr)
    · rw [← hroot]
      exact beq_iff_eq
    · -- Only here the shortcut could have hidden a chunk.
      intro hfree i
      have hdiff := diff_eq_differing hl.symm hfree
      rw [hbad, Except.ok.injEq] at hdiff
      rw [← mem_differing_iff hfound hl.symm, ← hdiff]
  · intro hne
    cases hlayout : Layout.ofSizes F.length (UInt32.ofNat t.layout.chunkSize) with
    | error e =>
      refine .inl ⟨e, rfl, ?_⟩
      rw [ofContent_of_error hlayout]
      rfl
    | ok l =>
      obtain ⟨found, hfound, hl⟩ := exists_ofContent hlayout
      have hother : found.layout ≠ t.layout := by
        intro heq
        apply hne
        rw [length_of_content hfound, heq]
      refine .inr ⟨l, rfl, ?_⟩
      rw [hfound, ← hl]
      exact report_of_ne hother

/-- A disk with the damaged file. -/
def damagedDisk : Disk where
  names := [("data", .file 0)]
  files := [damaged]

/-- The report on the damaged file names the second chunk and not the first. -/
theorem verifyLocal_exact_damaged : ∃ t found report, ofContent intact 4 = .ok t ∧
    damagedDisk.content? "data" = some damaged ∧ (ofFile "data" 4 damagedDisk).1 = .ok found ∧
    CollisionFree (t.inputs ++ found.inputs) ∧
    (t.verifyLocal "data" damagedDisk).1 = .ok report ∧ 0 ∉ report.badIndices ∧
    1 ∈ report.badIndices := by
  obtain ⟨t, t', ht, ht', hl, hl', hleaves, hleaves'⟩ := exists_damaged
  have hfile : damagedDisk.content? "data" = some damaged := rfl
  have hcalm : ∀ n op, damagedDisk.weather n op "data" = none := fun _ _ => rfl
  have hsize : UInt32.ofNat t.layout.chunkSize = 4 := by
    rw [hl]
    rfl
  obtain ⟨found, report, hfound, hreport, -, -, -, -, -, -, hbad⟩ :=
    (verifyLocal_exact t hfile hcalm).1 (by rw [hl]; rfl)
  rw [hsize] at hfound
  have hcontent : ofContent damaged 4 = .ok found := (ofFile_eq hfile hcalm).symm.trans hfound
  obtain rfl : t' = found := Except.ok.inj (ht'.symm.trans hcontent)
  have hfree := collisionFree_damaged hleaves hleaves'
  refine ⟨t, t', report, ht, hfile, hfound, hfree, hreport, ?_, ?_⟩
  · rw [hbad hfree]
    rintro ⟨r, hr, hfail⟩
    rw [hl] at hr
    cases hr
    refine Bool.eq_false_iff.1 hfail (Site.verifyLeaf_iff.2 ?_)
    rw [leaf?_eq_getElem?, hleaves]
    rfl
  · rw [hbad hfree]
    refine ⟨⟨4, 7, by decide⟩, by rw [hl]; rfl, Bool.eq_false_iff.2 fun hpass => ?_⟩
    have hleaf := Site.verifyLeaf_iff.1 hpass
    rw [leaf?_eq_getElem?, hleaves] at hleaf
    exact absurd hleaf (by decide +kernel)

end Tree
end VerifiedCopy
