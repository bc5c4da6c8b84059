/-
# A file is replaced as a whole or not at all

A saving may break off after any of its steps, because the step fails or because nothing
more is done. Only the two names can lead elsewhere afterwards, and only the file
that was left over under the temporary name can have other content. What a saving leaves
behind does not stand in the way of the next one, whatever it is.

Until the last step the name leads to what it led to, and after it to the new
content; so whoever comes later finds the old content or the new one
(`saveUpTo_cases`). This rests on the temporary name not being another name of the file that
is to be replaced (`Disk.Apart`). So it is where no file has two names, and savings keep it so.
Otherwise the first step empties the file that was to be replaced, and the last one does nothing.

A sidecar that is opened again is therefore the old version or the new one
(`reopen_cases`), for trees as for ledgers (`replaced_as_a_whole`). Work on other files makes
no difference to that. The file that was left over under the temporary name becomes the sidecar,
though, so that a handle on it from before leads into the sidecar afterwards
(`not_replaced_as_a_whole`).

Key definitions: `Disk.Apart`, `Disk.Beside`, `Disk.saveUpTo`, `Disk.reopen`, `OldOrNew`.
Key theorems: `Leftover.sameAt`, `saveUpTo_cases`, `load_congr`, `reopen_cases`,
`replaced_as_a_whole`, `not_replaced_as_a_whole`.
-/
import VerifiedCopy.Proofs.Cache.Opening
import VerifiedCopy.Proofs.Desk.Snapshots

namespace VerifiedCopy
namespace Disk

variable {d d' : Disk} {p q : Path} {b : Bytes} {id : Nat}

/-! ### Wherever a saving breaks off -/

/-- The file under the temporary name for `p`, if there is one, is not the one under `p`. -/
def Apart (d : Disk) (p : Path) : Prop :=
  ∀ id, d.node? (temporaryFor p) = some (.file id) → d.node? p ≠ some (.file id)

/-- Where no file has two names, every name is apart from its temporary name. -/
theorem apart_of_one_name
    (h : ∀ id q q', (q, .file id) ∈ d.names → (q', .file id) ∈ d.names → q = q') (p : Path) :
    d.Apart p := by
  have hmem : ∀ {q id}, d.node? q = some (.file id) → (q, Node.file id) ∈ d.names := by
    intro q id hq
    obtain ⟨before, after, hnames, -⟩ := List.lookup_eq_some_iff.1 hq
    simp [hnames]
  exact fun id htmp hp => temporaryFor_ne p (h id _ _ (hmem hp) (hmem htmp))

theorem Leftover.linked (h : Leftover d q d') (hl : d.Linked) : d'.Linked := by
  cases h with
  | nothing clock => exact hl
  | file hp => exact hp.linked hl

/-- What is left behind does not stand in the way of the next saving. -/
theorem Leftover.apart (h : Leftover d (temporaryFor p) d') (hl : d.Linked) (hd : d.Apart p) :
    d'.Apart p := by
  cases h with
  | nothing clock => exact hd
  | @file b id d' hp =>
    intro id' hid' hp'
    rw [hp.node, if_pos rfl] at hid'
    rw [hp.node, if_neg (temporaryFor_ne p)] at hp'
    obtain rfl := Node.file.inj (Option.some.inj hid')
    rcases hp.origin with horigin | ⟨-, rfl⟩
    · exact hd _ horigin hp'
    · exact Nat.lt_irrefl _ (hl _ _ hp')

/-- A file with the temporary name only leaves it for the name that it is saved under. -/
theorem Saved.temporary_eq_none (h : Saved d p b id d') (hl : d.Linked) (hd : d.Apart p) :
    d'.node? (temporaryFor p) = none := by
  refine h.temporary.trans (if_neg fun hp => ?_)
  rcases h.origin with horigin | ⟨-, rfl⟩
  · exact hd id horigin hp
  · exact Nat.lt_irrefl _ (hl p _ hp)

theorem Saved.apart (h : Saved d p b id d') (hl : d.Linked) (hd : d.Apart p) : d'.Apart p := by
  intro id' hid'
  cases (h.temporary_eq_none hl hd).symm.trans hid'

/-- A saving that breaks off leaves alone what it was to replace. -/
theorem Leftover.sameAt (h : Leftover d (temporaryFor p) d') (hl : d.Linked) (hd : d.Apart p) :
    SameAt p d d' := by
  refine h.confined.sameAt hl (fun hmem => ?_) fun id hid q hq hq' => ?_
  · exact temporaryFor_ne p (List.mem_singleton.1 hmem)
  · rw [List.mem_singleton.1 hq] at hq'
    exact hd id hq' hid

theorem Underway.leftover {rest : List SaveStep} {s : Saving} (h : Underway d p b rest s)
    (hrest : rest ≠ []) : Leftover d (temporaryFor p) s.disk := by
  cases h with
  | start => exact .nothing d.clock
  | created h | written h | synced h => exact .file h
  | renamed h => exact absurd rfl hrest

/-- The first `n` steps of saving `b` under `p`. -/
def saveUpTo (n : Nat) (d : Disk) (p : Path) (b : Bytes) : Except Error Unit × Saving :=
  saveSteps p b (SaveStep.all.take n) ⟨d, none⟩

/-- Some steps of a saving leave a temporary file at most, or they are all of them and the
new content is in its place. -/
theorem saveUpTo_cases (hl : d.Linked) (n : Nat) (p : Path) (b : Bytes) :
    Leftover d (temporaryFor p) (saveUpTo n d p b).2.disk ∨
    (saveUpTo n d p b).1 = .ok () ∧ ∃ id, Saved d p b id (saveUpTo n d p b).2.disk := by
  -- What is left after the steps that are taken; the file is replaced if it is nothing.
  have hstart : Underway d p b (SaveStep.all.take n ++ SaveStep.all.drop n) ⟨d, none⟩ := by
    rw [List.take_append_drop]
    exact .start
  unfold saveUpTo
  rcases hstart.saveSteps_cases hl with ⟨context, text, s, h, hleft⟩ | ⟨s, h, hs⟩
  · rw [h]
    exact .inl hleft
  · rw [h]
    by_cases hrest : SaveStep.all.drop n = []
    · rw [hrest] at hs
      cases hs with
      | renamed hsaved => exact .inr ⟨rfl, _, hsaved⟩
    · exact .inl (hs.leftover hrest)

/-! ### Reading it again -/

/-- The disk at another time and in other weather. -/
def later (d : Disk) (weather : Nat → FileOp → Path → Option Fault) (clock : Nat) : Disk :=
  { d with weather, clock }

variable {weather : Nat → FileOp → Path → Option Fault} {clock : Nat}

theorem absence_congr (h : ∀ q, parent? p = some q → d'.node? q = d.node? q) :
    d'.absence p = d.absence p := by
  unfold absence
  cases hq : parent? p with
  | none => rfl
  | some q =>
    rw [Option.bind_some, Option.bind_some, h q hq]

/-- What a reading comes to, seen from the beginning. -/
theorem load_eq (d : Disk) (p : Path) : (d.load p).1 =
    match d.weather d.clock .access p, d.node? p, d.weather (d.clock + 1) .read p with
    | some f, _, _ => .error f.error
    | none, none, _ => .error (d.absence p)
    | none, some _, some f => .error f.error
    | none, some .directory, none => .error .isDirectory
    | none, some (.file id), none => .ok (d.content id) := by
  unfold load openRead tick
  cases d.weather d.clock .access p with
  | some f => rfl
  | none =>
    have hnode : ({ d with clock := d.clock + 1 } : Disk).node? p = d.node? p := rfl
    dsimp only
    rw [hnode]
    cases d.node? p with
    | none => rfl
    | some n =>
      unfold readAll tick
      dsimp only
      cases d.weather (d.clock + 1) .read p with
      | some f => rfl
      | none => cases n <;> rfl

/-- Names that lead to the same are read alike. -/
theorem load_congr (h : SameAt p d d') (habsence : d'.absence p = d.absence p) :
    ((d'.later weather clock).load p).1 = ((d.later weather clock).load p).1 := by
  have hnode : (d'.later weather clock).node? p = (d.later weather clock).node? p := h.node
  have hnone : (d'.later weather clock).absence p = (d.later weather clock).absence p := habsence
  have hweather : (d'.later weather clock).weather = (d.later weather clock).weather := rfl
  have hclock : (d'.later weather clock).clock = (d.later weather clock).clock := rfl
  rw [load_eq, load_eq, hweather, hclock, hnode, hnone]
  cases (d.later weather clock).weather (d.later weather clock).clock .access p with
  | some f => rfl
  | none =>
    cases hn : (d.later weather clock).node? p with
    | none => rfl
    | some n =>
      cases (d.later weather clock).weather ((d.later weather clock).clock + 1) .read p with
      | some f => rfl
      | none =>
        cases n with
        | directory => rfl
        | file id =>
          have hsame := h.content
          unfold content? at hsame
          rw [h.node, show d.node? p = some (.file id) from hn] at hsame
          exact congrArg Except.ok (Option.some.inj hsame)

/-- What is there is read, unless the weather interferes. -/
theorem load_of_content? (h : d.content? p = some b) :
    (d.load p).1 = .ok b ∨ ¬ d.Fair ∧ ∃ e, (d.load p).1 = .error e := by
  obtain ⟨r, clock, hload⟩ := d.load_clock p
  rw [hload]
  cases r with
  | ok b' =>
    obtain ⟨hcontent, -⟩ := load_eq_ok hload ⟨⟨p, .directory, false⟩, 0, false⟩
    exact .inl (congrArg Except.ok (Option.some.inj (hcontent.symm.trans h)))
  | error e =>
    refine .inr ⟨fun hfair => ?_, e, rfl⟩
    obtain ⟨clock', hfine⟩ := load_fair hfair h
    cases hload.symm.trans hfine

/-- What comes of opening the file under `p` again, whose content is taken for what `decode`
makes of it. -/
def reopen {α : Type} (p : Path) (decode : Bytes → Except Error α) (d : Disk) : Except Error α :=
  match (d.load p).1 with
  | .error e => .error (e.within s!"read {p}")
  | .ok b => decode b

end Disk

/-- A reopening comes to the new version, or to what it would have come to before; only if
the weather is not fair it can also fail. -/
def OldOrNew {α : Type} (fair : Prop) (old : Except Error α) (new : α) (got : Except Error α) :
    Prop :=
  got = old ∨ got = .ok new ∨ ¬ fair ∧ ∃ context text, got = .error (.io context text)

theorem Tree.load_eq_reopen (p : Path) (d : Disk) : (Tree.load p d).1 = d.reopen p Tree.decode := by
  unfold Tree.load Disk.reopen
  rcases d.load p with ⟨_ | _, _⟩ <;> rfl

theorem Ledger.openOrCreate_eq_reopen {p : Path} {d : Disk} (h : d.has p = true) (count : Nat) :
    (Ledger.openOrCreate p count d).1 = d.reopen p (Ledger.ofSidecar p count) := by
  unfold Ledger.openOrCreate Disk.reopen
  rw [if_pos h]
  rcases d.load p with ⟨_ | _, _⟩ <;> rfl

namespace Disk

variable {d d' : Disk} {p : Path} {b : Bytes} {weather : Nat → FileOp → Path → Option Fault}
  {clock : Nat}

/-! ### Work in between -/

/-- The file `m` has neither the name `p` nor the temporary one. -/
structure Beside (d : Disk) (p : Path) (m : Nat) : Prop where
  known : m < d.files.length
  name : d.node? p ≠ some (.file m)
  temporary : d.node? (temporaryFor p) ≠ some (.file m)

/-- Work, any amount of it, on open files that were beside `p` on the disk `d`. -/
inductive Worked (d : Disk) (p : Path) (s : Disk) : Disk → Prop
  | nothing : Worked d p s s
  | more {s' s'' : Disk} {file : LocalFile} {m : Nat} (h : Worked d p s s') (hm : d.Beside p m)
      (hfile : file.handle.node = .file m) (hwork : file.Touches s' s'') : Worked d p s s''

/-- A saving does not bring a file under the name that was beside it. -/
theorem Beside.node_ne {m : Nat} (hm : d.Beside p m) (hl : d.Linked) (b : Bytes) (n : Nat) :
    (saveUpTo n d p b).2.disk.node? p ≠ some (.file m) := by
  rcases saveUpTo_cases hl n p b with hleft | ⟨-, id, hsaved⟩
  · rw [hleft.confined.node p fun hmem => temporaryFor_ne p (List.mem_singleton.1 hmem)]
    exact hm.name
  · rw [hsaved.node p (temporaryFor_ne p), if_pos rfl]
    exact fun e => hsaved.ne hm.known hm.temporary (Node.file.inj (Option.some.inj e)).symm

/-- What has the name `p` is not worked on. -/
theorem Worked.sameAt {s s' : Disk} (h : Worked d p s s') (hl : s.Linked)
    (hne : ∀ m, d.Beside p m → s.node? p ≠ some (.file m)) :
    SameAt p s s' ∧ s'.names = s.names ∧ s.files.length ≤ s'.files.length := by
  induction h with
  | nothing => exact ⟨.refl p s, rfl, Nat.le_refl _⟩
  | @more s' s'' file m _ hm hfile hwork ih =>
    obtain ⟨hsame, hnames, hgrows⟩ := ih
    have hchanges := hwork.changes m hfile
    have hnode : s''.node? p = s'.node? p := by unfold node?; rw [hwork.names]
    refine ⟨hsame.trans ⟨hnode, ?_⟩, hwork.names.trans hnames, Nat.le_trans hgrows hchanges.grows⟩
    unfold content?
    rw [hnode]
    split
    · rename_i id hid
      rw [hsame.node] at hid
      rw [hchanges.others id (Nat.lt_of_lt_of_le (hl p id hid) hgrows) fun e => hne m hm (e ▸ hid)]
    · rfl

/-- However much of a saving was done, and whatever was done to other files after it: the file is
opened again with the result that it would have had before, or it is the new version; at any time
and in any weather. -/
theorem reopen_cases {α : Type} {decode : Bytes → Except Error α} {new : α} (hl : d.Linked)
    (hd : d.Apart p) (hnew : decode b = .ok new) (n : Nat)
    (hwork : Worked d p (saveUpTo n d p b).2.disk d') :
    let got := (d'.later weather clock).reopen p decode
    SameAt p d d' ∧ got = (d.later weather clock).reopen p decode ∨
      d'.has p = true ∧ (got = .ok new ∨
        (¬ ∀ k op q, weather k op q = none) ∧ ∃ context text, got = .error (.io context text)) := by
  intro got
  rcases saveUpTo_cases hl n p b with hleft | ⟨-, id, hsaved⟩
  · obtain ⟨hafter, hnames, -⟩ := hwork.sameAt (hleft.linked hl) fun m hm => hm.node_ne hl b n
    have hsame := (hleft.sameAt hl hd).trans hafter
    have habsence : d'.absence p = d.absence p := by
      refine absence_congr fun q hq => ?_
      have hnode : d'.node? q = (saveUpTo n d p b).2.disk.node? q := by unfold node?; rw [hnames]
      refine hnode.trans (hleft.confined.node q fun hmem => ?_)
      exact ne_append_of_parent? hq ".tmp" (List.mem_singleton.1 hmem)
    refine .inl ⟨hsame, ?_⟩
    unfold got reopen
    rw [load_congr hsame habsence]
  · obtain ⟨hafter, -, -⟩ := hwork.sameAt (hsaved.linked hl) fun m hm => hm.node_ne hl b n
    have hcontent : (d'.later weather clock).content? p = some b :=
      hafter.content.trans hsaved.content?
    refine .inr ⟨has_of_content? hcontent, ?_⟩
    unfold got reopen
    rcases load_of_content? hcontent with hload | ⟨hunfair, e, hload⟩
    · rw [hload]
      exact .inl hnew
    · rw [hload]
      exact .inr ⟨hunfair, _, _, rfl⟩

theorem tree_old_or_new (hl : d.Linked) (hd : d.Apart p) (t : Tree) (n : Nat)
    (hwork : Worked d p (saveUpTo n d p t.encode).2.disk d') :
    OldOrNew (∀ k op q, weather k op q = none) (Tree.load p (d.later weather clock)).1 t
      (Tree.load p (d'.later weather clock)).1 := by
  have hdecode : Tree.decode t.encode = .ok t := t.decode_body (by decide)
  rw [Tree.load_eq_reopen, Tree.load_eq_reopen]
  exact (reopen_cases hl hd hdecode n hwork).imp And.right And.right

/-- The version of a ledger that its sidecar holds. -/
theorem ofSidecar_snapshot {g : Ledger} (hg : g.chunkCount < UInt32.size) (p : Path) :
    Ledger.ofSidecar p g.chunkCount g.snapshot = .ok { g.landed with path := some p } := by
  unfold Ledger.ofSidecar
  rw [Ledger.restore_snapshot hg]
  exact refuse_eq_ok_iff.2 ⟨not_not_intro rfl, rfl⟩

theorem ledger_old_or_new (hl : d.Linked) (hd : d.Apart p) {g : Ledger}
    (hg : g.chunkCount < UInt32.size) (n : Nat)
    (hwork : Worked d p (saveUpTo n d p g.snapshot).2.disk d') (hthere : d'.has p = true) :
    OldOrNew (∀ k op q, weather k op q = none)
      (Ledger.openOrCreate p g.chunkCount (d.later weather clock)).1
      { g.landed with path := some p }
      (Ledger.openOrCreate p g.chunkCount (d'.later weather clock)).1 := by
  have hlater : (d'.later weather clock).has p = true := hthere
  rw [Ledger.openOrCreate_eq_reopen hlater]
  refine (reopen_cases hl hd (ofSidecar_snapshot hg p) n hwork).imp (fun ⟨hsame, hgot⟩ => ?_)
    And.right
  have hbefore : (d.later weather clock).has p = true := hsame.has.symm.trans hthere
  rw [hgot, Ledger.openOrCreate_eq_reopen hbefore]

/-! ### All of it -/

/-- What some steps of a saving do to other names and files, whatever the two names lead to. -/
theorem saveUpTo_others (hl : d.Linked) (b : Bytes) (n : Nat) :
    let s := (saveUpTo n d p b).2
    (∀ q, q ≠ p → q ≠ temporaryFor p → s.disk.node? q = d.node? q) ∧
      (∀ id < d.files.length, d.node? (temporaryFor p) ≠ some (.file id) →
        s.disk.content id = d.content id) ∧
      s.disk.Linked := by
  intro s
  rcases saveUpTo_cases hl n p b with hleft | ⟨-, id, hsaved⟩
  · refine ⟨fun q _ hq => ?_, fun id hid hnot => ?_, hleft.linked hl⟩
    · exact hleft.confined.node q fun hmem => hq (List.mem_singleton.1 hmem)
    · exact hleft.confined.content id hid (List.forall_mem_singleton.2 hnot)
  · refine ⟨fun q hp hq => ?_, fun id' hid' hnot => ?_, hsaved.linked hl⟩
    · rw [hsaved.node q hq, if_neg hp]
    · exact hsaved.confined.content id' hid' (List.forall_mem_singleton.2 hnot)

/-- What some steps of a saving do to the name itself. -/
theorem saveUpTo_name (hl : d.Linked) (hd : d.Apart p) (b : Bytes) (n : Nat) :
    let s := (saveUpTo n d p b).2
    (SameAt p d s.disk ∨ (saveUpTo n d p b).1 = .ok () ∧ s.disk.content? p = some b) ∧
      s.disk.Apart p := by
  intro s
  rcases saveUpTo_cases hl n p b with hleft | ⟨hok, id, hsaved⟩
  · exact ⟨.inl (hleft.sameAt hl hd), hleft.apart hl hd⟩
  · exact ⟨.inr ⟨hok, hsaved.content?⟩, hsaved.apart hl hd⟩

/-- A saving that fails has replaced nothing. -/
theorem sameAt_of_save_error {e : Error} (hl : d.Linked) (hd : d.Apart p)
    (h : d.save p b = (.error e, d')) : SameAt p d d' := by
  have hsave : d.save p b = ((saveUpTo 4 d p b).1, (saveUpTo 4 d p b).2.disk) := rfl
  rw [hsave] at h
  obtain ⟨hresult, rfl⟩ := Prod.mk.inj h
  rcases saveUpTo_cases hl 4 p b with hleft | ⟨hok, -⟩
  · exact hleft.sameAt hl hd
  · cases hresult.symm.trans hok

/-- A saving that does not fail has put the file in its place. -/
theorem saved_of_save_ok (hl : d.Linked) (h : d.save p b = (.ok (), d')) :
    ∃ id, Saved d p b id d' := by
  rcases save_cases hl p b with ⟨context, text, d₁, hsave, -⟩ | ⟨id, d₁, hsave, hsaved⟩
  · cases h.symm.trans hsave
  · cases h.symm.trans hsave
    exact ⟨id, hsaved⟩

end Disk

open Disk (SameAt Worked saveUpTo)

/-- **A file is replaced as a whole or not at all.** Take any number of the steps of a saving, of
which each may fail, on any disk. No name but the two leads elsewhere then, and no file but the one
that was left over under the temporary name has other content; and if all of the saving is done and
does not fail, the new content is under the name.

If the temporary name is not another name of the file that is to be replaced, then wherever the
saving breaks off, the name leads to what it led to, with the content that was there, or to the new
content, and then nothing has failed; another saving finds the disk in order again. If the saving
fails, the old content is there; if it does not fail, there is no temporary file. So a tree or a
ledger whose saving broke off anywhere is opened again in its old or its new version, whatever was
done in between to files that had neither of the two names. -/
theorem replaced_as_a_whole {d : Disk} {p : Path} (hl : d.Linked) :
    (∀ (b : Bytes) (n : Nat) r s, saveUpTo n d p b = (r, s) →
      (∀ q, q ≠ p → q ≠ temporaryFor p → s.disk.node? q = d.node? q) ∧
      (∀ id < d.files.length, d.node? (temporaryFor p) ≠ some (.file id) →
        s.disk.content id = d.content id) ∧
      s.disk.Linked) ∧
    (∀ b d', d.save p b = (.ok (), d') → d'.content? p = some b) ∧
    (d.Apart p →
      (∀ (b : Bytes) (n : Nat) r s, saveUpTo n d p b = (r, s) →
        (SameAt p d s.disk ∨ r = .ok () ∧ s.disk.content? p = some b) ∧ s.disk.Apart p) ∧
      (∀ b e d', d.save p b = (.error e, d') → SameAt p d d') ∧
      (∀ b d', d.save p b = (.ok (), d') → d'.has (temporaryFor p) = false) ∧
      ∀ (n : Nat) (weather : Nat → FileOp → Path → Option Fault) (clock : Nat) (d' : Disk),
        (∀ t : Tree, Worked d p (saveUpTo n d p t.encode).2.disk d' →
          OldOrNew (∀ k op q, weather k op q = none)
            (Tree.load p (d.later weather clock)).1 t (Tree.load p (d'.later weather clock)).1) ∧
        ∀ g : Ledger, g.chunkCount < UInt32.size →
          Worked d p (saveUpTo n d p g.snapshot).2.disk d' → d'.has p = true →
          OldOrNew (∀ k op q, weather k op q = none)
            (Ledger.openOrCreate p g.chunkCount (d.later weather clock)).1
            { g.landed with path := some p }
            (Ledger.openOrCreate p g.chunkCount (d'.later weather clock)).1) := by
  refine ⟨fun b n r s h => ?_, fun b d' h => ?_, fun hd => ⟨fun b n r s h => ?_,
    fun b e d' => Disk.sameAt_of_save_error hl hd, fun b d' h => ?_, fun n weather clock d' =>
      ⟨fun t => Disk.tree_old_or_new hl hd t n, fun g hg => Disk.ledger_old_or_new hl hd hg n⟩⟩⟩
  · have hothers := Disk.saveUpTo_others (p := p) hl b n
    rw [h] at hothers
    exact hothers
  · obtain ⟨id, hsaved⟩ := Disk.saved_of_save_ok hl h
    exact hsaved.content?
  · have hname := Disk.saveUpTo_name hl hd b n
    rw [h] at hname
    exact hname
  · obtain ⟨id, hsaved⟩ := Disk.saved_of_save_ok hl h
    exact congrArg Option.isSome (hsaved.temporary_eq_none hl hd)

/-- A file with a word in it, and a longer file that a saving has left over. -/
def littered : Disk where
  names := [("s", .file 0), ("s.tmp", .file 1)]
  files := [[111, 108, 100], [110, 101, 119, 101, 114]]

theorem littered_linked : littered.Linked := Disk.linked_of_names (by simp [littered])

theorem littered_apart : littered.Apart "s" := by
  refine Disk.apart_of_one_name ?_ "s"
  simp only [littered, List.mem_cons, List.not_mem_nil, or_false, Prod.mk.injEq]
  rintro id q q' (⟨rfl, h⟩ | ⟨rfl, h⟩) (⟨rfl, h'⟩ | ⟨rfl, h'⟩)
  · rfl
  · cases h.symm.trans h'
  · cases h.symm.trans h'
  · rfl

/-- Two steps leave the old word, and all of them the new one. -/
theorem replaced_as_a_whole_littered : littered.Linked ∧ littered.Apart "s" ∧
    (saveUpTo 2 littered "s" [110, 101, 119]).2.disk.content? "s" = some [111, 108, 100] ∧
    ∃ d', littered.save "s" [110, 101, 119] = (.ok (), d') ∧
      d'.content? "s" = some [110, 101, 119] ∧ d'.has "s.tmp" = false := by
  obtain ⟨-, hsaved, hapart⟩ := replaced_as_a_whole (p := "s") littered_linked
  obtain ⟨hsteps, -, hgone, -⟩ := hapart littered_apart
  refine ⟨littered_linked, littered_apart, ?_, _, rfl, hsaved [110, 101, 119] _ rfl,
    hgone [110, 101, 119] _ rfl⟩
  obtain ⟨hsame | ⟨-, hnew⟩, -⟩ := hsteps [110, 101, 119] 2 _ _ rfl
  · exact hsame.content
  · cases hnew

/-- A file with a word in it that has two names, one of them the temporary name of the other. -/
def twoNames : Disk where
  names := [("s", .file 0), ("s.tmp", .file 0)]
  files := [[111, 108, 100]]

theorem twoNames_linked : twoNames.Linked := Disk.linked_of_names (by simp [twoNames])

/-- The same, and no write to the temporary name gets beyond one byte. -/
def twoNamesWriteless : Disk :=
  { twoNames with weather := fun _ op _ => if op = .write then some ⟨.other "full", 1⟩ else none }

/-- The ledger was saved by way of the open local file, and then a chunk was written to that. -/
def overwrittenSidecar : Disk :=
  ((Session.localCopy "s.tmp").writeDurable 0 Session.letters
    ((Session.emptyCopy "s.tmp").disk.save "s" (Ledger.empty 1).snapshot).2).2

/-- The sidecar was not there before, so a ledger was begun; and now it cannot be read. -/
theorem not_oldOrNew_overwritten (new : Ledger) :
    ¬ OldOrNew True (Ledger.openOrCreate "s" 1 (Session.emptyCopy "s.tmp").disk).1 new
      (Ledger.openOrCreate "s" 1 overwrittenSidecar).1 := by
  have hold : (Ledger.openOrCreate "s" 1 (Session.emptyCopy "s.tmp").disk).1.toOption.isSome =
      true := by decide +kernel
  have hgot : (Ledger.openOrCreate "s" 1 overwrittenSidecar).1.toOption.isSome = false := by
    decide +kernel
  rintro (hsame | hnew | ⟨hunfair, -⟩)
  · rw [hsame, hold] at hgot
    cases hgot
  · rw [hnew] at hgot
    cases hgot
  · exact hunfair trivial

/-- Where the temporary name is another name of the file that is to be replaced, the first step
empties the file, a write that fails leaves a part of the new content, and after a saving that does
not fail both names are there. And where it is the name of the open local file, which becomes the
sidecar, the next chunk that is written overwrites the sidecar: it is opened again neither in its old
nor in its new version. -/
theorem not_replaced_as_a_whole :
    (¬ ∀ (d : Disk) (p : Path) (b : Bytes) (n : Nat), d.Linked →
      SameAt p d (saveUpTo n d p b).2.disk ∨
        (saveUpTo n d p b).2.disk.content? p = some b) ∧
    (¬ ∀ (d : Disk) (p : Path) (b : Bytes) e d', d.Linked → d.save p b = (.error e, d') →
      SameAt p d d') ∧
    (¬ ∀ (d : Disk) (p : Path) (b : Bytes) d', d.Linked → d.save p b = (.ok (), d') →
      d'.has (temporaryFor p) = false) ∧
    ¬ ∀ (d : Disk) (p : Path) (g : Ledger) (file : LocalFile) (offset : Nat) (b : Bytes),
      d.Linked → d.Apart p → d.Fair → d.Knows file.handle → d.node? p ≠ some file.handle.node →
      g.chunkCount < UInt32.size → (d.save p g.snapshot).1 = .ok () →
        OldOrNew True (Ledger.openOrCreate p g.chunkCount d).1 { g.landed with path := some p }
          (Ledger.openOrCreate p g.chunkCount
            (file.writeDurable offset b (d.save p g.snapshot).2).2).1 := by
  refine ⟨fun h => ?_, fun h => ?_, fun h => ?_, fun h => ?_⟩
  · have hempty : (saveUpTo 1 twoNames "s" [110, 101, 119]).2.disk.content? "s" = some [] := rfl
    rcases h twoNames "s" [110, 101, 119] 1 twoNames_linked with hsame | hnew
    · cases hempty.symm.trans hsame.content
    · cases hempty.symm.trans hnew
  · have hpart : (twoNamesWriteless.save "s" [110, 101, 119]).2.content? "s" = some [110] := rfl
    have hsame := h twoNamesWriteless "s" [110, 101, 119] _ _ twoNames_linked rfl
    cases hpart.symm.trans hsame.content
  · have hthere : (twoNames.save "s" [110, 101, 119]).2.has "s.tmp" = true := rfl
    cases hthere.symm.trans (h twoNames "s" [110, 101, 119] _ twoNames_linked rfl)
  · exact not_oldOrNew_overwritten _ (h (Session.emptyCopy "s.tmp").disk "s" (Ledger.empty 1)
      (Session.localCopy "s.tmp") 0 Session.letters
      (Disk.linked_of_names (by simp [Session.emptyCopy]))
      (Disk.apart_of_one_name (by simp +contextual [Session.emptyCopy]) "s") (fun _ _ _ => rfl)
      (Session.emptyCopy_knows "s.tmp") (by decide +kernel) (by decide)
      (eq_ok_of_toOption (by decide +kernel)))

end VerifiedCopy
