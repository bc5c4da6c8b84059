/-
# The tree of an opening

The tree of a cache is the one in its sidecar, or that of the manifest if there is no
sidecar, and the tree of a manifest is saved before it is compared with the entry. So a
tree that is refused is in its place all the same (`tree_of_refusal`), and stands in the
way of the right one.

Any tree that is accepted has the published root. The root that a manifest declares is
published if it is a digest; so an opening that succeeds has the declared root, unless
what is declared is no digest at all and there was a tree already (`root_of_opening`).

Key definitions: `Installed`.
Key theorems: `tree_of_refusal`, `root_of_opening`.
-/
import VerifiedCopy.Proofs.Cache.Opening
import VerifiedCopy.Proofs.Manifest

namespace VerifiedCopy

open Sidecar (treePath statePath)

theorem Entry.checkRoot_eq_ok_iff {entry : Entry} {t : Tree} : entry.checkRoot t = .ok () ↔
    ∀ r, entry.publishedRoot = some r → r = t.root := by
  unfold Entry.checkRoot
  cases entry.publishedRoot with
  | none => simp
  | some r => simp

namespace Cache

variable {d d' : Disk} {path : Path} {t : Tree} {entry : Entry} {config : Config} {e : Error}

/-! ### The tree of a refused opening -/

theorem validate_error {transfer : TransferConfig} (h : transfer.validate = .error e) :
    ∃ text, e = .invalidConfiguration text := by
  unfold TransferConfig.validate at h
  split at h
  · cases h
    exact ⟨_, rfl⟩
  · split at h
    · cases h
      exact ⟨_, rfl⟩
    · cases h

theorem treeOfManifest_error {p : Path} (h : treeOfManifest entry p = .error e) :
    (∃ text, e = .invalidConfiguration text) ∨ entry.manifestTree = some (.error e) := by
  unfold treeOfManifest at h
  split at h
  · cases h
    exact .inl ⟨_, rfl⟩
  · rename_i r hr
    exact .inr (hr.trans (congrArg some h))

theorem treeOfManifest_ok {p : Path} (h : treeOfManifest entry p = .ok t) :
    entry.manifestTree = some (.ok t) := by
  unfold treeOfManifest at h
  split at h
  · cases h
  · rename_i r hr
    exact hr.trans (congrArg some h)

/-- Without a sidecar the tree is that of the manifest, and has been saved. -/
theorem loadTree_made (hnone : d.has (treePath path) = false)
    (h : loadTree entry path d = (.ok t, d')) :
    entry.manifestTree = some (.ok t) ∧ t.save (treePath path) d = (.ok (), d') := by
  unfold loadTree at h
  simp only [hnone, Bool.false_eq_true, if_false] at h
  split at h
  · cases h
  · rename_i t' hmade
    split at h
    · cases h
    · rename_i d₁ hsave
      cases h
      exact ⟨treeOfManifest_ok hmade, hsave⟩

/-- Without a sidecar there is no disagreement before the tree is made, unless the manifest
disagrees with itself. -/
theorem loadTree_mismatch {a b : String} (hl : d.Linked) (hnone : d.has (treePath path) = false)
    (h : loadTree entry path d = (.error (.treeMismatch a b), d')) :
    entry.manifestTree = some (.error (.treeMismatch a b)) ∧ d' = d := by
  rcases loadTree_cases hl entry path with ⟨hhas, -⟩ | ⟨-, ⟨e, hrefused, htree⟩ | ⟨t', -,
    ⟨_, _, d₁, htree, -⟩ | ⟨id, d₁, htree, -⟩⟩⟩
  · cases hnone.symm.trans hhas
  · cases h.symm.trans htree
    rcases treeOfManifest_error hrefused with ⟨text, he⟩ | hown
    · cases he
    · exact ⟨hown, rfl⟩
  · cases h.symm.trans htree
  · cases h.symm.trans htree

/-- A tree is in its place, and in fair weather it is the tree that an opening takes, or is
refused for, whatever the entry. -/
structure Installed (path : Path) (t : Tree) (d : Disk) : Prop where
  saved : d.content? (treePath path) = some t.encode
  refused : d.Fair → ∀ (entry : Entry) (config : Config) (e : Error),
    config.transfer.validate = .ok () → checkTree entry path t = .error e →
    (openAt entry path config d).1 = .error e
  taken : d.Fair → ∀ (entry : Entry) (config : Config) (c : Cache) (g : Ledger) (d' : Disk),
    openAt entry path config d = (.ok (c, g), d') → c.tree = t

theorem installed_of_saved (hpair : checkPair path d = .ok ())
    (ht : d.content? (treePath path) = some t.encode) : Installed path t d where
  saved := ht
  refused hf entry config e hconfig hcheck := by
    obtain ⟨clock, htree⟩ := loadTree_of_saved hf ht entry
    exact congrArg Prod.fst (openAt_of_mismatch hconfig hpair htree hcheck)
  taken hf entry config c g d' hopen := by
    obtain ⟨clock, htree⟩ := loadTree_of_saved hf ht entry
    cases openAt_course hopen with
    | opened t' d₁ hconfig hpair hloaded hok hfiles => cases hloaded.symm.trans htree; rfl

theorem saved_of_save (hl : d.Linked) (h : t.save (treePath path) d = (.ok (), d')) :
    ∃ id, d.Saved (treePath path) t.encode id d' := by
  unfold Tree.save at h
  rcases Disk.save_cases hl (treePath path) t.encode with
    ⟨context, text, d₁, hsave, -⟩ | ⟨id, d₁, hsave, hsaved⟩
  · cases h.symm.trans hsave
  · cases h.symm.trans hsave
    exact ⟨id, hsaved⟩

/-- Saving the tree leaves the names of the other two files alone. -/
theorem checkPair_of_saved {b : Bytes} {id : Nat} (h : d.Saved (treePath path) b id d')
    (hpair : checkPair path d = .ok ()) : checkPair path d' = .ok () := by
  have hdata := h.node_append (s := "") (by decide) (by decide)
  rw [String.append_empty] at hdata
  have hstate : d'.node? (statePath path) = d.node? (statePath path) :=
    h.node_append (by decide) (by decide)
  rw [checkPair_eq_ok_iff] at hpair ⊢
  unfold Disk.has at hpair ⊢
  rw [hdata, hstate, hpair]

/-- If an opening that finds no tree ends in a disagreement of trees, the manifest was
refused by itself, and nothing was done; or the ledger disagreed with the tree; or the tree
of the manifest disagreed with the entry, and is in its place all the same. -/
theorem tree_of_refusal {a b : String} (hl : d.Linked) (hnone : d.has (treePath path) = false)
    (h : openAt entry path config d = (.error (.treeMismatch a b), d')) :
    (entry.manifestTree = some (.error (.treeMismatch a b)) ∧ d' = d) ∨
      ∃ t, entry.manifestTree = some (.ok t) ∧ (checkTree entry path t = .ok () ∨
        checkTree entry path t = .error (.treeMismatch a b) ∧ Installed path t d') := by
  cases openAt_course h with
  | settings he =>
    obtain ⟨text, he⟩ := validate_error he
    cases he
  | pair he =>
    obtain ⟨text, he⟩ := checkPair_error he
    cases he
  | tree hpair he => exact .inl (loadTree_mismatch hl hnone he)
  | mismatch t hpair ht he =>
    obtain ⟨hmade, hsave⟩ := loadTree_made hnone ht
    obtain ⟨id, hsaved⟩ := saved_of_save hl hsave
    have hinstalled := installed_of_saved (checkPair_of_saved hsaved hpair) hsaved.content?
    exact .inr ⟨t, hmade, .inr ⟨he, hinstalled⟩⟩
  | files t d₁ hpair ht hok he =>
    obtain ⟨hmade, -⟩ := loadTree_made hnone ht
    exact .inr ⟨t, hmade, .inl hok⟩

/-- A digest of zeros. -/
def noDigest : Digest := ⟨List.replicate 32 0, rfl⟩

/-- A tree of one chunk, whose digest is not that of the letters. -/
def foreignTree : Tree := ⟨Session.lettersLayout, #[noDigest], [noDigest], rfl, rfl⟩

/-- The entry of the letters with the root of their tree and another tree's manifest. -/
def foreignEntry : Entry :=
  { lettersEntry with
    explicitRoot := some Session.lettersTree.root
    manifest := some (.ofTree "" foreignTree) }

theorem checkTree_foreign {entry : Entry} (hsize : entry.totalSize = 8)
    (hroot : entry.publishedRoot = some Session.lettersTree.root) :
    checkTree entry "d" foreignTree =
      .error (.treeMismatch Session.lettersTree.root.hex foreignTree.root.hex) := by
  have hne : Session.lettersTree.root ≠ foreignTree.root := by decide +kernel
  unfold checkTree Entry.checkRoot
  rw [if_pos (show entry.totalSize = foreignTree.layout.totalSize from hsize), hroot]
  dsimp only
  rw [if_neg hne]

/-- The other tree is saved before it is refused. -/
theorem openAt_foreign : ∃ d', openAt foreignEntry "d" {} {} =
      (.error (.treeMismatch Session.lettersTree.root.hex foreignTree.root.hex), d') ∧
    d'.Fair ∧ checkPair "d" d' = .ok () ∧
    d'.content? (treePath "d") = some foreignTree.encode := by
  have hloaded : (loadTree foreignEntry "d" {}).1 = .ok foreignTree :=
    eq_ok_of_toOption (by decide +kernel)
  have hpair : checkPair "d" (loadTree foreignEntry "d" {}).2 = .ok () :=
    checkPair_eq_ok_iff.2 (by decide +kernel)
  have hsaved : (loadTree foreignEntry "d" {}).2.content? (treePath "d") =
    some foreignTree.encode := by decide +kernel
  rcases htree : loadTree foreignEntry "d" {} with ⟨r, d'⟩
  rw [htree] at hloaded hpair hsaved
  obtain rfl : r = .ok foreignTree := hloaded
  have hweather := (loadTree_keeps Disk.linked_empty htree).1.weather
  exact ⟨d', openAt_of_mismatch rfl rfl htree (checkTree_foreign rfl rfl),
    fun k op p => congrFun (congrFun (congrFun hweather k) op) p, hpair, hsaved⟩

theorem tree_of_refusal_foreign : Disk.Linked {} ∧ Disk.has {} (treePath "d") = false ∧
    ∃ a b d', openAt foreignEntry "d" {} {} = (.error (.treeMismatch a b), d') ∧
      Installed "d" foreignTree d' := by
  have hnone : Disk.has {} (treePath "d") = false := rfl
  obtain ⟨d', hopen, -⟩ := openAt_foreign
  refine ⟨Disk.linked_empty, hnone, _, _, d', hopen, ?_⟩
  have hmanifest : foreignEntry.manifestTree = some (.ok foreignTree) :=
    congrArg some (eq_ok_of_toOption (by decide +kernel))
  rcases tree_of_refusal Disk.linked_empty hnone hopen with ⟨hown, -⟩ | ⟨t, ht, hok | ⟨-, hkept⟩⟩
  · cases hmanifest.symm.trans hown
  · cases hmanifest.symm.trans ht
    cases hok.symm.trans (checkTree_foreign rfl rfl)
  · cases hmanifest.symm.trans ht
    exact hkept

/-- The manifest of another tree is refused, but the tree is kept; so the right manifest is
of no use later. -/
theorem refused_tree_kept : Disk.has {} (treePath "d") = false ∧
    ∃ a b d', openAt foreignEntry "d" {} {} = (.error (.treeMismatch a b), d') ∧
      d'.has (treePath "d") = true ∧
      lettersEntry.manifestTree = some (.ok Session.lettersTree) ∧
      lettersEntry.check Session.lettersTree = .ok () ∧
      ∃ a' b', (openAt lettersEntry "d" {} d').1 = .error (.treeMismatch a' b') := by
  obtain ⟨d', hopen, hfair, hpair, hsaved⟩ := openAt_foreign
  have hroot : lettersEntry.publishedRoot = some Session.lettersTree.root := by decide +kernel
  have hagain := (installed_of_saved hpair hsaved).refused hfair lettersEntry {} _ rfl
    (checkTree_foreign rfl hroot)
  exact ⟨rfl, _, _, d', hopen, Disk.has_of_content? hsaved,
    congrArg some (eq_ok_of_toOption (by decide +kernel)), eq_ok_of_toOption (by decide +kernel),
    _, _, hagain⟩

/-! ### The root of an opening -/

/-- The tree of an open cache has the published root. -/
theorem root_of_openAt {c : Cache} {g : Ledger} (h : openAt entry path config d = (.ok (c, g), d'))
    {r : Digest} (hr : entry.publishedRoot = some r) : r = c.tree.root := by
  cases openAt_course h with
  | opened t d₁ hconfig hpair ht hok hfiles =>
    unfold checkTree at hok
    split at hok
    · exact Entry.checkRoot_eq_ok_iff.1 hok r hr
    · cases hok

/-- The tree of a manifest has the root that is written there. -/
theorem rootHex_of_toTree {m : Manifest} (h : m.toTree = .ok t) : m.rootHex = t.root.hex := by
  obtain ⟨-, -, -, hroot⟩ := Manifest.toTree_eq_ok_iff.1 h
  exact hroot

/-- An entry with a manifest and without a root of its own: a cache that is opened for it
has the root that the manifest declares, in letters of either case; or else what is
declared is no digest, and the tree was there before. -/
theorem root_of_opening {m : Manifest} {c : Cache} {g : Ledger}
    (hmanifest : entry.manifest = some m) (hroot : entry.explicitRoot = none)
    (h : openAt entry path config d = (.ok (c, g), d')) :
    m.rootHex.toLower = c.tree.root.hex ∨
      d.has (treePath path) = true ∧ ∀ r : Digest, m.rootHex.toLower ≠ r.hex := by
  cases hdeclared : Digest.ofHex m.rootHex with
  | ok r =>
    have hpublished : entry.publishedRoot = some r := by
      unfold Entry.publishedRoot
      rw [hroot, hmanifest]
      exact congrArg Except.toOption hdeclared
    rw [← root_of_openAt h hpublished]
    exact .inl (Digest.ofHex_eq_ok_iff.1 hdeclared)
  | error e =>
    cases hhas : d.has (treePath path) with
    | true =>
      refine .inr ⟨rfl, fun r hr => ?_⟩
      cases hdeclared.symm.trans (Digest.ofHex_eq_ok_iff.2 hr)
    | false =>
      -- The manifest made the tree, and its root is as written.
      obtain ⟨d₁, hload⟩ : ∃ d₁, loadTree entry path d = (.ok c.tree, d₁) := by
        cases openAt_course h with
        | opened t d₁ hconfig hpair ht hok hfiles => exact ⟨d₁, ht⟩
      obtain ⟨hmade, -⟩ := loadTree_made hhas hload
      unfold Entry.manifestTree at hmade
      rw [hmanifest] at hmade
      rw [rootHex_of_toTree (Option.some.inj hmade)]
      exact .inl (Digest.toLower_hex _)

theorem root_of_opening_letters :
    lettersEntry.manifest = some (.ofTree "" Session.lettersTree) ∧
      lettersEntry.explicitRoot = none ∧
      ∃ c g d', openAt lettersEntry "d" {} {} = (.ok (c, g), d') ∧
        (Manifest.ofTree "" Session.lettersTree).rootHex.toLower = c.tree.root.hex := by
  obtain ⟨⟨c, g⟩, hopen⟩ := exists_ok (x := openAt lettersEntry "d" {} {}) (by decide +kernel)
  refine ⟨rfl, rfl, c, g, _, hopen, ?_⟩
  rcases root_of_opening rfl rfl hopen with hroot | ⟨hhas, -⟩
  · exact hroot
  · cases hhas

/-- The tree of the letters is there, and the manifest declares a root that is no digest.
The cache is opened. -/
theorem malformed_root_accepted :
    let m := { Manifest.ofTree "" Session.lettersTree with rootHex := "not a hash" }
    let entry : Entry := { remoteUrl := "", totalSize := 8, manifest := some m }
    let d : Disk := { names := [("d.mref", .file 0)], files := [Session.lettersTree.encode] }
    ∃ c g d', openAt entry "d" {} d = (.ok (c, g), d') ∧
      m.rootHex.toLower ≠ c.tree.root.hex := by
  intro m entry d
  obtain ⟨⟨c, g⟩, hopen⟩ := exists_ok (x := openAt entry "d" {} d) (by decide +kernel)
  have hdeclared : (Digest.ofHex m.rootHex).toOption = none := by decide +kernel
  refine ⟨c, g, _, hopen, fun hroot => ?_⟩
  rw [Digest.ofHex_eq_ok_iff.2 hroot] at hdeclared
  cases hdeclared

end Cache
end VerifiedCopy
