/-
# What is written as JSON is read as it was

The bytes `b` are a form of the value `v` if a reader takes them off the front of any bytes
that go on with a blank, a comma or a closing bracket, and finds `v` (`Value.Reads`). Quoted
texts and decimal numbers are forms, and forms joined by commas and blanks between brackets
are a form again, of the list or of the object with their values.

A reader's bound counts the nesting and the items. Twice the length of a form is enough: a
part is shorter than its whole by the commas and the brackets at least (`length_joined`).

Key definitions: `Decimal`, `Value.Ends`, `Value.Reads`, `Value.Part`, `Value.row`.
Key theorems: `decimal_digits`, `reads_quote`, `reads_decimal`, `read_joined`, `reads_list`,
`reads_object`, `Reads.read`.
-/
import VerifiedCopy.Json.Value
import VerifiedCopy.Proofs.Json.Text

namespace VerifiedCopy
namespace Json

variable {c : UInt8} {b rest ds : Bytes} {n : Nat}

/-! ### Blanks -/

theorem isBlank_iff : isBlank c = true ↔ c = 0x20 ∨ c = 0x09 ∨ c = 0x0A ∨ c = 0x0D := by
  unfold isBlank
  rw [Bool.or_eq_true, Bool.or_eq_true, Bool.or_eq_true, beq_iff_eq, beq_iff_eq, beq_iff_eq,
    beq_iff_eq, or_assoc, or_assoc]

theorem isBlank_of_isDigit (h : isDigit c = true) : isBlank c = false := by
  rw [Bool.eq_false_iff, ne_eq, isBlank_iff]
  rintro (rfl | rfl | rfl | rfl) <;> cases h

theorem skipBlanks_append {gap : Bytes} (hgap : ∀ c ∈ gap, isBlank c = true) (b : Bytes) :
    skipBlanks (gap ++ b) = skipBlanks b :=
  List.dropWhile_append_of_pos hgap

theorem skipBlanks_cons (h : isBlank c = false) (b : Bytes) : skipBlanks (c :: b) = c :: b :=
  List.dropWhile_cons_of_neg (by rw [h]; exact Bool.false_ne_true)

/-! ### Decimal digits -/

/-- The digits of a number, without a zero at the front unless it is the only one. -/
structure Decimal (n : Nat) (ds : Bytes) : Prop where
  digits : ∀ c ∈ ds, isDigit c = true
  value : ofDigits ds = n
  head : n = 0 ∧ ds = [zero] ∨ n ≠ 0 ∧ ∃ c ds', ds = c :: ds' ∧ c ≠ zero

/-- The byte of a digit. -/
theorem digit_spec : ∀ k < 10, String.utf8EncodeChar k.digitChar = [UInt8.ofNat (0x30 + k)] ∧
    isDigit (UInt8.ofNat (0x30 + k)) = true ∧ (UInt8.ofNat (0x30 + k)).toNat - 0x30 = k ∧
    (UInt8.ofNat (0x30 + k) = zero ↔ k = 0) := by
  decide

theorem ofDigits_append (ds : Bytes) (c : UInt8) :
    ofDigits (ds ++ [c]) = 10 * ofDigits ds + (c.toNat - 0x30) := by
  unfold ofDigits
  rw [List.foldl_append]
  rfl

theorem Decimal.append {k : Nat} (h : Decimal n ds) (hn : n ≠ 0) (hk : k < 10) :
    Decimal (10 * n + k) (ds ++ [UInt8.ofNat (0x30 + k)]) := by
  obtain ⟨-, hdigit, hvalue, -⟩ := digit_spec k hk
  refine ⟨fun c hc => ?_, ?_, .inr ⟨by omega, ?_⟩⟩
  · rcases List.mem_append.1 hc with hc | hc
    · exact h.digits c hc
    · rw [List.mem_singleton.1 hc]
      exact hdigit
  · rw [ofDigits_append, h.value, hvalue]
  · rcases h.head with ⟨h0, -⟩ | ⟨-, c, ds', rfl, hc⟩
    · exact absurd h0 hn
    · exact ⟨c, _, rfl, hc⟩

theorem toString_eq (n : Nat) :
    Bytes.ofText (toString n) = (Nat.toDigits 10 n).flatMap String.utf8EncodeChar := by
  rw [Nat.toString_eq_ofList_toDigits, Bytes.ofText_eq, String.toList_ofList]

/-- A number is written in its digits. -/
theorem decimal_digits (n : Nat) : Decimal n (Bytes.ofText (toString n)) := by
  induction n using Nat.strongRecOn with
  | ind n ih =>
    rw [toString_eq]
    rcases Nat.lt_or_ge n 10 with hlt | hge
    · obtain ⟨hbyte, hdigit, hvalue, hzero⟩ := digit_spec n hlt
      rw [Nat.toDigits_of_lt_base hlt, List.flatMap_singleton, hbyte]
      refine ⟨List.forall_mem_singleton.2 hdigit, ?_, ?_⟩
      · exact (ofDigits_append [] _).trans ((Nat.zero_add _).trans hvalue)
      · rcases Nat.eq_zero_or_pos n with h0 | hpos
        · exact .inl ⟨h0, congrArg (fun c => [c]) (hzero.2 h0)⟩
        · have hne := Nat.ne_of_gt hpos
          exact .inr ⟨hne, _, _, rfl, fun h => hne (hzero.1 h)⟩
    · have hmod : n % 10 < 10 := Nat.mod_lt n (by decide)
      have hfront := ih (n / 10) (by omega)
      have hdecimal := hfront.append (by omega) hmod
      rw [toString_eq, Nat.div_add_mod] at hdecimal
      rw [Nat.toDigits_of_base_le (by decide) hge, List.flatMap_append, List.flatMap_singleton,
        (digit_spec (n % 10) hmod).1]
      exact hdecimal

namespace Value

/-- The bytes may follow a value: if there are any, the first is a blank, a comma or a
closing bracket. A number needs that, since it has no end of its own. -/
def Ends (rest : Bytes) : Prop :=
  ∀ c ∈ rest.head?, isBlank c = true ∨ c = comma ∨ c = closeList ∨ c = closeObject

theorem ends_cons (h : isBlank c = true ∨ c = comma ∨ c = closeList ∨ c = closeObject) (b : Bytes) :
    Ends (c :: b) := by
  intro c' hc'
  cases hc'
  exact h

/-- Blanks may follow a value if what comes after them may. -/
theorem Ends.append {gap : Bytes} (h : Ends b) (hgap : ∀ c ∈ gap, isBlank c = true) :
    Ends (gap ++ b) := by
  cases gap with
  | nil => exact h
  | cons c gap => exact ends_cons (.inl (hgap c List.mem_cons_self)) _

/-- Nothing that may follow a value goes on with a number. -/
theorem Ends.stops (h : Ends (c :: b)) :
    isDigit c = false ∧ c ≠ point ∧ c ≠ 0x65 ∧ c ≠ 0x45 := by
  rcases h c rfl with hblank | rfl | rfl | rfl
  · rcases isBlank_iff.1 hblank with rfl | rfl | rfl | rfl <;> decide
  · decide
  · decide
  · decide

/-! ### Numbers -/

theorem Ends.not_digit (h : Ends rest) : rest.takeWhile isDigit = [] ∧
    rest.dropWhile isDigit = rest := by
  cases rest with
  | nil => exact ⟨rfl, rfl⟩
  | cons c b =>
    have hc : ¬ isDigit c = true := by
      rw [h.stops.1]
      exact Bool.false_ne_true
    exact ⟨List.takeWhile_cons_of_neg hc, List.dropWhile_cons_of_neg hc⟩

theorem whole?_decimal (h : Decimal n ds) (hrest : Ends rest) :
    whole? (ds ++ rest) = some (ds, rest) := by
  obtain ⟨htake, hdrop⟩ := hrest.not_digit
  rcases h.head with ⟨-, rfl⟩ | ⟨-, c, ds', rfl, hc⟩
  · -- A zero is taken without a look at what comes after it.
    exact whole?.eq_1 rest
  · rw [whole?.eq_2 (c :: ds' ++ rest) fun _ heq => hc (List.cons.inj heq).1]
    unfold digits?
    rw [List.takeWhile_append_of_pos h.digits, List.dropWhile_append_of_pos h.digits, htake, hdrop,
      List.append_nil]

theorem fraction?_ends (h : Ends rest) : fraction? rest = some (false, rest) := by
  cases rest with
  | nil => rfl
  | cons c b => exact fraction?.eq_2 _ fun _ heq => h.stops.2.1 (List.cons.inj heq).1

theorem exponent?_ends (h : Ends rest) : exponent? rest = some (false, rest) := by
  cases rest with
  | nil => rfl
  | cons c b =>
    obtain ⟨-, -, hlower, hupper⟩ := h.stops
    exact if_neg fun hc => hc.elim hlower hupper

theorem magnitude?_decimal (h : Decimal n ds) (hrest : Ends rest) :
    magnitude? false (ds ++ rest) = some (.number false n true, rest) := by
  unfold magnitude?
  rw [whole?_decimal h hrest, ← h.value]
  simp only [Option.bind_eq_bind, Option.bind_some, fraction?_ends hrest, exponent?_ends hrest]
  rfl

theorem after?_eq_none {word : String} {x : UInt8} {w : Bytes} (hword : Bytes.ofText word = x :: w)
    (hc : c ≠ x) (b : Bytes) : after? word (c :: b) = none := by
  unfold after?
  dsimp only
  rw [hword, List.length_cons, List.take_succ_cons]
  exact if_neg fun heq => hc (List.cons.inj heq).1

/-- What starts with a digit is a number. -/
theorem value?_of_digit (hc : isDigit c = true) (n : Nat) (b : Bytes) :
    value? (n + 1) (c :: b) = magnitude? false (c :: b) := by
  have hne : ∀ x, isDigit x = false → c ≠ x := by
    rintro x hx rfl
    rw [hx] at hc
    cases hc
  -- No text, list, object or word starts with a digit, and there is no sign.
  have hhead : ∀ x, isDigit x = false → ∀ rest, c :: b = x :: rest → False :=
    fun x hx rest heq => hne x hx (List.cons.inj heq).1
  have hnull : Bytes.ofText "null" = [0x6E, 0x75, 0x6C, 0x6C] := by decide +kernel
  have htrue : Bytes.ofText "true" = [0x74, 0x72, 0x75, 0x65] := by decide +kernel
  have hfalse : Bytes.ofText "false" = [0x66, 0x61, 0x6C, 0x73, 0x65] := by decide +kernel
  rw [value?.eq_6 (c :: b) n (List.cons_ne_nil c b) (hhead mark (by decide))
      (hhead openList (by decide)) (hhead openObject (by decide)),
    after?_eq_none hnull (hne _ (by decide)), after?_eq_none htrue (hne _ (by decide)),
    after?_eq_none hfalse (hne _ (by decide))]
  exact number?.eq_2 _ (hhead minus (by decide))

/-! ### Forms of values -/

/-- The value of a text. -/
def ofText (s : String) : Value := .text (Text.escape (Bytes.ofText s))

/-- The value of a number. -/
def ofNat (n : Nat) : Value := .number false n true

theorem toText?_ofText (s : String) : (ofText s).toText? = some s := Text.toText?_escape s

theorem toNat?_ofNat {limit : Nat} (h : n < limit) : (ofNat n).toNat? limit = some n := if_pos h

/-- The bytes `b` are a form of `v`, for every reader with a bound of twice their length. -/
structure Reads (b : Bytes) (v : Value) : Prop where
  starts : ∃ c b', b = c :: b' ∧ isBlank c = false ∧ c ≠ closeList
  value : ∀ m, 2 * b.length ≤ m → ∀ rest, Ends rest → value? m (b ++ rest) = some (v, rest)

variable {v : Value} {gap close : Bytes}

theorem Reads.skipBlanks (h : Reads b v) (rest : Bytes) : skipBlanks (b ++ rest) = b ++ rest := by
  obtain ⟨c, b', rfl, hc, -⟩ := h.starts
  exact skipBlanks_cons hc _

/-- A form that starts with `c`, for readers with a bound that is not zero. -/
theorem Reads.mk_cons (hblank : isBlank c = false) (hc : c ≠ closeList)
    (h : ∀ m, 2 * (c :: b).length ≤ m + 1 → ∀ rest, Ends rest →
      value? (m + 1) (c :: b ++ rest) = some (v, rest)) : Reads (c :: b) v := by
  refine ⟨⟨c, b, rfl, hblank, hc⟩, ?_⟩
  rintro (_ | m) hm
  · cases hm
  · exact h m hm

/-- A quoted text. -/
theorem reads_quote (s : String) : Reads (Text.quote s) (ofText s) := by
  refine .mk_cons (by decide) (by decide) fun m _ rest _ => ?_
  have hscan := Text.scan_escape rest (Bytes.ofText s)
  have hform : Text.escape (Bytes.ofText s) ++ [mark] ++ rest =
      Text.escape (Bytes.ofText s) ++ mark :: rest := List.append_assoc _ [mark] rest
  rw [← hform] at hscan
  exact (value?.eq_3 m _).trans (congrArg (Option.map _) hscan)

/-- A number in decimal digits. -/
theorem reads_decimal (n : Nat) : Reads (Bytes.ofText (toString n)) (ofNat n) := by
  have hdecimal := decimal_digits n
  generalize Bytes.ofText (toString n) = ds at hdecimal
  obtain ⟨c, ds', rfl⟩ : ∃ c ds', ds = c :: ds' := by
    rcases hdecimal.head with ⟨-, h⟩ | ⟨-, c, ds', h, -⟩
    · exact ⟨_, _, h⟩
    · exact ⟨c, ds', h⟩
  have hdigit := hdecimal.digits c List.mem_cons_self
  refine .mk_cons (isBlank_of_isDigit hdigit) ?_ fun m _ rest hrest => ?_
  · rintro rfl
    cases hdigit
  · exact (value?_of_digit hdigit m _).trans (magnitude?_decimal hdecimal hrest)

/-! ### Parts in a row -/

/-- Forms one after the other, each but the first after a comma and a gap. -/
def joined (gap : Bytes) : List Bytes → Bytes
  | [] => []
  | b :: rest => b ++ rest.flatMap fun b => comma :: (gap ++ b)

theorem joined_singleton (gap b : Bytes) : joined gap [b] = b := List.append_nil b

theorem joined_cons (gap b b' : Bytes) (l : List Bytes) :
    joined gap (b :: b' :: l) = b ++ comma :: (gap ++ joined gap (b' :: l)) := by
  simp only [joined, List.flatMap_cons, List.cons_append, List.append_assoc]

theorem joined_append (gap b rest : Bytes) (l : List Bytes) :
    joined gap (b :: l) ++ rest = b ++ ((l.flatMap fun b => comma :: (gap ++ b)) ++ rest) :=
  List.append_assoc _ _ _

/-- A form is shorter than the joined ones by the number of the others. -/
theorem length_joined (gap : Bytes) : ∀ (l : List Bytes) (b : Bytes), ∀ b' ∈ b :: l,
    b'.length + l.length ≤ (joined gap (b :: l)).length
  | [], b, b', hb' => by
    rw [List.mem_singleton.1 hb', joined_singleton]
    exact Nat.le_refl _
  | y :: l, b, b', hb' => by
    have hrest := length_joined gap l y
    have hy := hrest y List.mem_cons_self
    rw [joined_cons, List.length_append, List.length_cons, List.length_cons, List.length_append]
    rcases List.mem_cons.1 hb' with rfl | hb'
    · omega
    · have := hrest b' hb'
      omega

/-- Forms joined between brackets. -/
def row (opening closing : UInt8) (gap close : Bytes) (forms : List Bytes) : Bytes :=
  opening :: (gap ++ (joined gap forms ++ (close ++ [closing])))

theorem row_append (opening closing : UInt8) (gap close : Bytes) (forms : List Bytes)
    (rest : Bytes) : row opening closing gap close forms ++ rest =
      opening :: (gap ++ (joined gap forms ++ (close ++ closing :: rest))) := by
  simp only [row, List.cons_append, List.append_assoc, List.nil_append]

/-- The bound that is left for the forms in a row. -/
theorem length_row {opening closing : UInt8} {b : Bytes} {l : List Bytes} {m : Nat}
    (hm : 2 * (row opening closing gap close (b :: l)).length ≤ m + 1) :
    ∃ n, n + l.length < m ∧ ∀ b' ∈ b :: l, 2 * b'.length ≤ n := by
  have hjoined := length_joined gap l b
  have hb := hjoined b List.mem_cons_self
  rw [row, List.length_cons, List.length_append, List.length_append, List.length_append,
    List.length_singleton] at hm
  refine ⟨2 * ((joined gap (b :: l)).length - l.length), by omega, fun b' hb' => ?_⟩
  have := hjoined b' hb'
  omega

/-- The reader `f` takes the bytes `b` for the part `v` of a row, both before `final`, where the
row ends, and before a comma. -/
structure Part {β : Type} (f : Nat → Bytes → Option (List β × Bytes)) (gap final rest : Bytes)
    (n : Nat) (b : Bytes) (v : β) : Prop where
  starts : ∀ b', Json.skipBlanks (b ++ b') = b ++ b'
  last : ∀ m, n ≤ m → f (m + 1) (b ++ final) = some ([v], rest)
  next : ∀ m, n ≤ m → ∀ b', Json.skipBlanks b' = b' →
    f (m + 1) (b ++ comma :: (gap ++ b')) = (f m b').map fun p => (v :: p.1, p.2)

variable {α β : Type}

/-- A row is read part by part, by induction on their number. -/
theorem read_joined {f : Nat → Bytes → Option (List β × Bytes)} {final : Bytes} {form : α → Bytes}
    {value : α → β} : ∀ (l : List α) (x : α),
    (∀ y ∈ x :: l, Part f gap final rest n (form y) (value y)) → ∀ m, n + l.length < m →
      f m (joined gap ((x :: l).map form) ++ final) = some ((x :: l).map value, rest)
  | [], x, h, m + 1, hm => by
    rw [List.map_singleton, joined_singleton]
    exact (h x List.mem_cons_self).last m (Nat.le_of_lt_succ hm)
  | y :: l, x, h, m + 1, hm => by
    have hy : ∀ z ∈ y :: l, Part f gap final rest n (form z) (value z) := fun z hz =>
      h z (List.mem_cons_of_mem x hz)
    rw [List.length_cons] at hm
    have hskip : Json.skipBlanks (joined gap ((y :: l).map form) ++ final) =
        joined gap ((y :: l).map form) ++ final := by
      rw [List.map_cons, joined_append]
      exact (hy y List.mem_cons_self).starts _
    have hx := (h x List.mem_cons_self).next m (by omega) _ hskip
    rw [read_joined l y hy m (by omega)] at hx
    rw [List.map_cons, List.map_cons, joined_cons, List.append_assoc, List.cons_append,
      List.append_assoc]
    exact hx

/-! ### Lists -/

theorem Reads.item (h : Reads b v) (hn : 2 * b.length ≤ n) (hgap : ∀ c ∈ gap, isBlank c = true)
    (hclose : ∀ c ∈ close, isBlank c = true) (rest : Bytes) :
    Part items? gap (close ++ closeList :: rest) rest n b v where
  starts := h.skipBlanks
  last m hm := by
    have hends := (ends_cons (.inr (.inr (.inl rfl))) rest).append hclose
    rw [items?.eq_2, h.value m (Nat.le_trans hn hm) _ hends]
    dsimp only [Option.bind_eq_bind, Option.bind_some]
    rw [skipBlanks_append hclose, skipBlanks_cons (by decide)]
    rfl
  next m hm b' hb' := by
    have hskip : Json.skipBlanks (gap ++ b') = b' := (skipBlanks_append hgap b').trans hb'
    rw [items?.eq_2, h.value m (Nat.le_trans hn hm) _ (ends_cons (.inr (.inl rfl)) _)]
    dsimp only [Option.bind_eq_bind, Option.bind_some]
    rw [skipBlanks_cons (by decide)]
    exact congrArg (fun r => (items? m r).map _) hskip

/-- An empty list. -/
theorem reads_nil : Reads [openList, closeList] (.list []) := by
  refine .mk_cons (by decide) (by decide) fun m _ rest _ => ?_
  have hskip : Json.skipBlanks (closeList :: rest) = closeList :: rest :=
    skipBlanks_cons (by decide) rest
  refine (value?.eq_4 m (closeList :: rest)).trans ?_
  rw [hskip]
  rfl

theorem value?_openList {b' : Bytes} (hb : skipBlanks b = c :: b') (hc : c ≠ closeList) (m : Nat) :
    value? (m + 1) (openList :: b) = (items? m (c :: b')).map fun p => (.list p.1, p.2) := by
  refine (value?.eq_4 m b).trans ?_
  rw [hb]
  split
  · rename_i heq
    exact absurd (List.cons.inj heq).1 hc
  · rfl

/-- A list of forms. -/
theorem reads_list {form : α → Bytes} {value : α → Value} {x : α} {l : List α}
    (hgap : ∀ c ∈ gap, isBlank c = true) (hclose : ∀ c ∈ close, isBlank c = true)
    (h : ∀ y ∈ x :: l, Reads (form y) (value y)) :
    Reads (row openList closeList gap close ((x :: l).map form)) (.list ((x :: l).map value)) := by
  refine .mk_cons (by decide) (by decide) fun m hm rest _ => ?_
  obtain ⟨n, hn, hforms⟩ := length_row hm
  rw [List.length_map] at hn
  have hitems := read_joined l x
    (fun y hy => (h y hy).item (hforms _ (List.mem_map_of_mem hy)) hgap hclose rest) m hn
  obtain ⟨c, b', hform, hblank, hc⟩ := (h x List.mem_cons_self).starts
  have hskip : ∀ b, Json.skipBlanks (gap ++ c :: b) = c :: b := fun b =>
    (skipBlanks_append hgap _).trans (skipBlanks_cons hblank b)
  refine (congrArg (value? (m + 1)) (row_append ..)).trans ?_
  rw [List.map_cons, joined_append, hform] at hitems ⊢
  rw [List.cons_append, value?_openList (hskip _) hc]
  exact congrArg (Option.map _) hitems

/-! ### Objects -/

/-- A member of an object: its key, and the form and the value of what is under it. -/
structure Member where
  key : String
  form : Bytes
  value : Value

/-- The form of a member. -/
def Member.text (x : Member) : Bytes := Text.quote x.key ++ colon :: 0x20 :: x.form

/-- The member that is read. -/
def Member.entry (x : Member) : Bytes × Value := (Text.escape (Bytes.ofText x.key), x.value)

theorem Member.text_append (x : Member) (rest : Bytes) :
    x.text ++ rest = Text.quote x.key ++ colon :: 0x20 :: (x.form ++ rest) :=
  List.append_assoc _ _ _

/-- What is under a key is shorter than the member. -/
theorem Member.bound (x : Member) {m : Nat} (hn : 2 * x.text.length ≤ n) (hm : n ≤ m) :
    2 * x.form.length ≤ m := by
  rw [Member.text, List.length_append, List.length_cons, List.length_cons] at hn
  omega

theorem key?_quote (h : Reads b v) (s : String) (rest : Bytes) :
    key? (Text.quote s ++ colon :: 0x20 :: (b ++ rest)) =
      some (Text.escape (Bytes.ofText s), b ++ rest) := by
  have hquote : Text.quote s ++ colon :: 0x20 :: (b ++ rest) =
      mark :: (Text.escape (Bytes.ofText s) ++ mark :: colon :: 0x20 :: (b ++ rest)) :=
    congrArg (mark :: ·) (List.append_assoc _ [mark] _)
  have hspace : skipBlanks (0x20 :: (b ++ rest)) = b ++ rest :=
    (skipBlanks_append (List.forall_mem_singleton.2 (by decide)) _).trans (h.skipBlanks rest)
  rw [hquote]
  refine (key?.eq_1 _).trans ?_
  rw [Text.scan_escape]
  dsimp only [Option.bind_eq_bind, Option.bind_some]
  rw [skipBlanks_cons (by decide)]
  exact congrArg (fun r => some (_, r)) hspace

theorem Reads.member {x : Member} (h : Reads x.form x.value) (hn : 2 * x.text.length ≤ n)
    (hgap : ∀ c ∈ gap, isBlank c = true) (hclose : ∀ c ∈ close, isBlank c = true) (rest : Bytes) :
    Part members? gap (close ++ closeObject :: rest) rest n x.text x.entry where
  starts b' := skipBlanks_cons (by decide) _
  last m hm := by
    have hends := (ends_cons (.inr (.inr (.inr rfl))) rest).append hclose
    rw [members?.eq_2, x.text_append, key?_quote h]
    dsimp only [Option.bind_eq_bind, Option.bind_some]
    rw [h.value m (x.bound hn hm) _ hends]
    dsimp only [Option.bind_some]
    rw [skipBlanks_append hclose, skipBlanks_cons (by decide)]
    rfl
  next m hm b' hb' := by
    have hskip : Json.skipBlanks (gap ++ b') = b' := (skipBlanks_append hgap b').trans hb'
    rw [members?.eq_2, x.text_append, key?_quote h]
    dsimp only [Option.bind_eq_bind, Option.bind_some]
    rw [h.value m (x.bound hn hm) _ (ends_cons (.inr (.inl rfl)) _)]
    dsimp only [Option.bind_some]
    rw [skipBlanks_cons (by decide)]
    exact congrArg (fun r => (members? m r).map _) hskip

theorem value?_openObject {b' : Bytes} (hb : skipBlanks b = c :: b') (hc : c ≠ closeObject)
    (m : Nat) : value? (m + 1) (openObject :: b) =
      (members? m (c :: b')).map fun p => (.object p.1, p.2) := by
  refine (value?.eq_5 m b).trans ?_
  rw [hb]
  split
  · rename_i heq
    exact absurd (List.cons.inj heq).1 hc
  · rfl

/-- An object of members. -/
theorem reads_object {x : Member} {l : List Member} (hgap : ∀ c ∈ gap, isBlank c = true)
    (hclose : ∀ c ∈ close, isBlank c = true) (h : ∀ y ∈ x :: l, Reads y.form y.value) :
    Reads (row openObject closeObject gap close ((x :: l).map Member.text))
      (.object ((x :: l).map Member.entry)) := by
  refine .mk_cons (by decide) (by decide) fun m hm rest _ => ?_
  obtain ⟨n, hn, hforms⟩ := length_row hm
  rw [List.length_map] at hn
  have hmembers := read_joined l x
    (fun y hy => (h y hy).member (hforms _ (List.mem_map_of_mem hy)) hgap hclose rest) m hn
  have hskip : ∀ b, Json.skipBlanks (gap ++ mark :: b) = mark :: b := fun b =>
    (skipBlanks_append hgap _).trans (skipBlanks_cons (by decide) b)
  refine (congrArg (value? (m + 1)) (row_append ..)).trans ?_
  exact (value?_openObject (hskip _) (by decide) m).trans (congrArg (Option.map _) hmembers)

/-- A form that is a whole file. -/
theorem Reads.read (h : Reads b v) : read b = some v := by
  have hvalue := h.value (2 * b.length + 2) (Nat.le_add_right _ 2) [] (fun _ hc => nomatch hc)
  have hskip := h.skipBlanks []
  rw [List.append_nil] at hvalue hskip
  unfold Value.read
  rw [hskip, hvalue]
  rfl

/-! ### Records -/

theorem keyed?_entries : ∀ l : List Member,
    keyed? (l.map Member.entry) = some (l.map fun x => (x.key, x.value))
  | [] => rfl
  | x :: l => by
    rw [List.map_cons, Member.entry, keyed?, Text.toText?_escape, keyed?_entries l]
    rfl

theorem toTexts?_ofText (l : List String) : (list (l.map ofText)).toTexts? = some l := by
  unfold toTexts?
  dsimp only
  induction l with
  | nil => rfl
  | cons s l ih =>
    rw [List.map_cons, List.mapM_cons, ih, toText?_ofText]
    rfl

end Value
end Json
end VerifiedCopy
