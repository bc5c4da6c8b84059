/-
# A manifest that is written is read back

The file of a manifest is an object with each member on a line of its own, behind two
spaces, and the leaves in it are a list with each text on a line of its own, behind four
(`render_eq`). So it is a form of that object, whatever the texts, the numbers and the leaves
are, and the fields of the object are those of the manifest (`parse_render`).

On the disk the file is emptied first, or made, so what is written is all that it holds. In
fair weather a manifest is written wherever there can be a file (`Disk.Admits`).

Key definitions: `Manifest.members`, `Disk.Admits`.
Key theorems: `render_eq`, `parse_render`, `write_fair`, `read_of_content?`,
`written_read_back`.
-/
import VerifiedCopy.Manifest.Store
import VerifiedCopy.Proofs.Json.Value
import VerifiedCopy.Proofs.Saving.Replacement

namespace VerifiedCopy

open Json Json.Value

namespace Manifest

/-! ### The file as a form -/

/-- A line end and the spaces that the next line starts with. -/
def indent (n : Nat) : Bytes := 0x0A :: List.replicate n 0x20

theorem isBlank_of_mem_indent (n : Nat) : ∀ c ∈ indent n, isBlank c = true := by
  intro c hc
  rcases List.mem_cons.1 hc with rfl | hc
  · rfl
  · rw [List.eq_of_mem_replicate hc]
    rfl

/-- The members of the object that a manifest is written as. -/
def members (m : Manifest) : List Member :=
  [⟨"created_utc", Json.Text.quote m.createdUtc, .ofText m.createdUtc⟩,
   ⟨"total_size", Bytes.ofText (toString m.totalSize.toNat), .ofNat m.totalSize.toNat⟩,
   ⟨"chunk_size", Bytes.ofText (toString m.chunkSize.toNat), .ofNat m.chunkSize.toNat⟩,
   ⟨"root_hex", Json.Text.quote m.rootHex, .ofText m.rootHex⟩,
   ⟨"leaves_hex", renderLeaves m.leavesHex, .list (m.leavesHex.map .ofText)⟩]

theorem renderLeaves_cons (s : String) (l : List String) : renderLeaves (s :: l) =
    row openList closeList (indent 4) (indent 2) ((s :: l).map Json.Text.quote) := by
  have hopen : Bytes.ofText "[\n    " = openList :: indent 4 := by decide +kernel
  have hcomma : Bytes.ofText ",\n    " = comma :: indent 4 := by decide +kernel
  have hclose : Bytes.ofText "\n  ]" = indent 2 ++ [closeList] := by decide +kernel
  simp only [renderLeaves, row, joined, List.map_cons, List.flatMap_map, hopen, hcomma, hclose,
    List.cons_append, List.append_assoc]

/-- The file of a manifest is the row of its members. -/
theorem render_eq (m : Manifest) :
    m.render = row openObject closeObject (indent 2) (indent 0) (m.members.map Member.text) := by
  have hcreated : Bytes.ofText "\x7b\n  \"created_utc\": " =
      openObject :: (indent 2 ++ Json.Text.quote "created_utc" ++ [colon, 0x20]) := by decide +kernel
  have htotal : Bytes.ofText ",\n  \"total_size\": " =
      comma :: (indent 2 ++ Json.Text.quote "total_size" ++ [colon, 0x20]) := by decide +kernel
  have hchunk : Bytes.ofText ",\n  \"chunk_size\": " =
      comma :: (indent 2 ++ Json.Text.quote "chunk_size" ++ [colon, 0x20]) := by decide +kernel
  have hroot : Bytes.ofText ",\n  \"root_hex\": " =
      comma :: (indent 2 ++ Json.Text.quote "root_hex" ++ [colon, 0x20]) := by decide +kernel
  have hleaves : Bytes.ofText ",\n  \"leaves_hex\": " =
      comma :: (indent 2 ++ Json.Text.quote "leaves_hex" ++ [colon, 0x20]) := by decide +kernel
  have hclose : Bytes.ofText "\n\x7d" = indent 0 ++ [closeObject] := by decide +kernel
  simp only [render, row, joined, members, Member.text, List.map_cons, List.map_nil,
    List.flatMap_cons, List.flatMap_nil, hcreated, htotal, hchunk, hroot, hleaves, hclose,
    List.cons_append, List.append_assoc, List.nil_append]

theorem reads_leaves : ∀ l : List String, Reads (renderLeaves l) (.list (l.map .ofText))
  | [] => by
    have hempty : renderLeaves [] = [openList, closeList] := by decide +kernel
    rw [hempty]
    exact reads_nil
  | s :: l => by
    rw [renderLeaves_cons]
    exact reads_list (isBlank_of_mem_indent 4) (isBlank_of_mem_indent 2) fun s _ => reads_quote s

theorem reads_render (m : Manifest) : Reads m.render (.object (m.members.map Member.entry)) := by
  rw [render_eq]
  refine reads_object (isBlank_of_mem_indent 2) (isBlank_of_mem_indent 0) ?_
  simp only [List.forall_mem_cons]
  exact ⟨reads_quote m.createdUtc, reads_decimal _, reads_decimal _, reads_quote m.rootHex,
    reads_leaves m.leavesHex, fun _ hx => nomatch hx⟩

/-! ### The manifest in the form -/

theorem ofValue?_members (m : Manifest) :
    ofValue? (.object (m.members.map Member.entry)) = some m := by
  have hfields : fields? ["created_utc", "total_size", "chunk_size", "root_hex", "leaves_hex"]
      (.object (m.members.map Member.entry)) = some (m.members.map fun x => some x.value) := by
    refine (congrArg (Option.bind · _) (keyed?_entries m.members)).trans ?_
    rfl
  have htotal : Config.word64? (.ofNat m.totalSize.toNat) = some m.totalSize := by
    unfold Config.word64?
    rw [toNat?_ofNat m.totalSize.toNat_lt, Option.map_some, UInt64.ofNat_toNat]
  have hchunk : Config.word32? (.ofNat m.chunkSize.toNat) = some m.chunkSize := by
    unfold Config.word32?
    rw [toNat?_ofNat m.chunkSize.toNat_lt, Option.map_some, UInt32.ofNat_toNat]
  unfold ofValue?
  rw [hfields]
  simp only [members, List.map_cons, List.map_nil, Option.bind_eq_bind, Option.bind_some,
    toText?_ofText, toTexts?_ofText, htotal, hchunk]
  rfl

/-- The text of a manifest is read as that manifest. -/
theorem parse_render (m : Manifest) (path : String) : parse path m.render = .ok m := by
  unfold parse
  rw [(reads_render m).read, Option.bind_some, ofValue?_members]

end Manifest

/-! ### Files that are written in place -/

namespace Disk

variable {d d' : Disk} {p : Path} {b : Bytes} {id : Nat}

theorem Placed.content? (h : Placed d p b id d') : d'.content? p = some b := by
  unfold Disk.content?
  rw [h.node, if_pos rfl]
  exact congrArg some h.content

/-- There is a file under the name, or one can be made. -/
def Admits (d : Disk) (p : Path) : Prop :=
  d.node? p ≠ some .directory ∧ (d.node? p = none → d.hasRoomFor p = true)

theorem openWrite_fair (hf : d.Fair) (p : Path) :
    (∃ h d', d.openWrite p = (.ok h, d')) ↔ d.Admits p := by
  have hnode : ({ d with clock := d.clock + 1 } : Disk).node? p = d.node? p := rfl
  unfold openWrite Admits
  rw [hf.tick]
  dsimp only
  rw [hnode]
  cases d.node? p with
  | none =>
    have hroom : ({ d with clock := d.clock + 1 } : Disk).hasRoomFor p = d.hasRoomFor p := rfl
    dsimp only
    rw [hroom]
    cases d.hasRoomFor p with
    | true => exact ⟨fun _ => ⟨(nomatch ·), fun _ => rfl⟩, fun _ => ⟨_, _, rfl⟩⟩
    | false => exact ⟨(nomatch ·), fun h => nomatch h.2 rfl⟩
  | some n =>
    cases n with
    | directory => exact ⟨(nomatch ·), fun h => absurd rfl h.1⟩
    | file id => exact ⟨fun _ => ⟨(nomatch ·), (nomatch ·)⟩, fun _ => ⟨_, _, rfl⟩⟩

theorem openEmpty_fair (hf : d.Fair) (p : Path) :
    (∃ h d', d.openEmpty p = (.ok h, d')) ↔ d.Admits p := by
  rw [← openWrite_fair hf]
  unfold openEmpty
  rcases d.openWrite p with ⟨e | ⟨path, _ | id, writable⟩, d'⟩
  · exact Iff.rfl
  · exact Iff.rfl
  · exact ⟨fun _ => ⟨_, _, rfl⟩, fun _ => ⟨_, _, rfl⟩⟩

theorem writeAt_fair (hf : d.Fair) (q : Path) (id : Nat) (b : Bytes) :
    (∃ d', d.writeAt ⟨q, .file id, true⟩ 0 b = (.ok (), d')) ↔ b.length < maxOffset := by
  unfold writeAt
  by_cases hnil : b = []
  · rw [if_pos hnil, hnil]
    exact ⟨fun _ => by decide, fun _ => ⟨_, rfl⟩⟩
  · rw [if_neg hnil, hf.tick]
    dsimp only
    rw [if_neg (by decide), Nat.zero_add]
    by_cases hlen : maxOffset ≤ b.length
    · rw [if_pos hlen]
      exact ⟨(nomatch ·), fun h => absurd h (Nat.not_lt_of_le hlen)⟩
    · rw [if_neg hlen]
      exact ⟨fun _ => Nat.lt_of_not_le hlen, fun _ => ⟨_, rfl⟩⟩

end Disk

namespace Manifest

variable {m : Manifest} {d d' : Disk} {p : Path} {b : Bytes}

/-- What is written is all that the file holds. -/
theorem content?_of_write (hl : d.Linked) (h : m.write p d = (.ok (), d')) :
    d'.content? p = some m.render ∧ d'.weather = d.weather := by
  unfold write at h
  rcases d.openEmpty_cases hl p with ⟨e, clock, hopen⟩ | ⟨id, d₁, hopen, h₁⟩
  · rw [hopen] at h
    cases h
  · rw [hopen] at h
    dsimp only at h
    rcases h₁.write_cases m.render with ⟨e, b', d₂, hwrite, -⟩ | ⟨d₂, hwrite, h₂⟩
    · rw [hwrite] at h
      cases h
    · rw [hwrite] at h
      cases h
      exact ⟨h₂.content?, h₂.changes.weather⟩

/-- In fair weather a manifest is written wherever there can be a file, unless it is longer than
any file. -/
theorem write_fair (hf : d.Fair) (hl : d.Linked) (m : Manifest) (p : Path) :
    (∃ d', m.write p d = (.ok (), d')) ↔ d.Admits p ∧ m.render.length < Disk.maxOffset := by
  have hopens := Disk.openEmpty_fair hf p
  unfold write
  rcases d.openEmpty_cases hl p with ⟨e, clock, hopen⟩ | ⟨id, d₁, hopen, h₁⟩
  · rw [hopen] at hopens ⊢
    exact ⟨(nomatch ·), fun h => nomatch hopens.2 h.1⟩
  · have hwrites := Disk.writeAt_fair (h₁.fair hf) p id m.render
    rw [hopen] at hopens ⊢
    rw [← hwrites, and_iff_right (hopens.1 ⟨_, _, rfl⟩)]
    dsimp only
    rcases d₁.writeAt ⟨p, .file id, true⟩ 0 m.render with ⟨e | _, d₂⟩
    · exact ⟨(nomatch ·), (nomatch ·)⟩
    · exact ⟨fun _ => ⟨_, rfl⟩, fun _ => ⟨_, rfl⟩⟩

/-- What is read is taken for a manifest. -/
theorem read_eq_parse (p : Path) (d : Disk) : ∃ e, (read p d).1 =
    match (d.load p).1 with
    | .error _ => .error e
    | .ok b => parse p b := by
  unfold read Disk.load
  rcases d.openRead p with ⟨e | h, d₁⟩
  · exact ⟨_, rfl⟩
  · dsimp only
    rcases d₁.readAll h with ⟨e | b, d₂⟩
    · exact ⟨_, rfl⟩
    · exact ⟨.cancelled, rfl⟩

/-- A file that is there is read, unless the weather interferes. -/
theorem read_of_content? (h : d.content? p = some b) :
    (read p d).1 = parse p b ∨ ¬ d.Fair ∧ ∃ e, (read p d).1 = .error e := by
  obtain ⟨e', hread⟩ := read_eq_parse p d
  rcases Disk.load_of_content? h with hload | ⟨hunfair, e, hload⟩
  · rw [hload] at hread
    exact .inl hread
  · rw [hload] at hread
    exact .inr ⟨hunfair, e', hread⟩

/-- **A manifest that is written is read back.** Whatever the texts, the numbers and the leaves of
a manifest are, its text is read as that manifest. On any disk where no name leads to a file that
is not there, once it has been written without a failure its file holds that text and nothing else;
and as long as the file does, whatever happens to the rest of the disk, reading it gives the
manifest, or the weather is not fair and it is an error. In fair weather a manifest is written
wherever there is a file or can be one, unless it is longer than any file, and the next reading
gives it back. -/
theorem written_read_back (m : Manifest) (p : Path) :
    (∀ path, parse path m.render = .ok m) ∧
    (∀ d d', d.Linked → m.write p d = (.ok (), d') →
      d'.content? p = some m.render ∧
      ∀ d'' : Disk, d''.content? p = d'.content? p →
        (read p d'').1 = .ok m ∨ ¬ d''.Fair ∧ ∃ e, (read p d'').1 = .error e) ∧
    ∀ d, d.Linked → d.Fair →
      ((∃ d', m.write p d = (.ok (), d')) ↔ d.Admits p ∧ m.render.length < Disk.maxOffset) ∧
      ∀ d', m.write p d = (.ok (), d') → (read p d').1 = .ok m := by
  refine ⟨m.parse_render, fun d d' hl h => ?_, fun d hl hf => ⟨write_fair hf hl m p, ?_⟩⟩
  · obtain ⟨hcontent, -⟩ := content?_of_write hl h
    refine ⟨hcontent, fun d'' hsame => ?_⟩
    rw [← m.parse_render p]
    exact read_of_content? (hsame.trans hcontent)
  · intro d' h
    obtain ⟨hcontent, hweather⟩ := content?_of_write hl h
    rcases read_of_content? hcontent with hread | ⟨hunfair, -⟩
    · exact hread.trans (m.parse_render p)
    · exact absurd (hf.of_weather hweather) hunfair

/-- A manifest whose texts have quotes, backslashes, control characters and characters of two,
three and four bytes, with the largest numbers and an empty leaf. -/
def awkward : Manifest where
  createdUtc := "\"\\/\x00\x08\t\n\x0c\r\x1f\x7f"
  totalSize := 18446744073709551615
  chunkSize := 4294967295
  rootHex := "é∀𝄞"
  leavesHex := ["", "\\u0041", "[,]:"]

/-- It is written to an empty disk and read back. -/
theorem written_read_back_awkward : ∃ d', awkward.write "m.json" {} = (.ok (), d') ∧
    (read "m.json" d').1 = .ok awkward := by
  obtain ⟨-, -, hfair⟩ := written_read_back awkward "m.json"
  obtain ⟨hwrites, hreads⟩ := hfair {} (fun _ _ h => nomatch h) fun _ _ _ => rfl
  obtain ⟨d', hwrite⟩ := hwrites.2 ⟨⟨(nomatch ·), fun _ => rfl⟩, by decide +kernel⟩
  exact ⟨d', hwrite, hreads d' hwrite⟩

end Manifest
end VerifiedCopy
