/-
# JSON values

A strict reader: blanks are the space, the tab and the two line ends; there are
no comments, no commas at the end of a list, no leading zeros, and nothing but
blanks may follow the value. What is inside the texts and numbers is judged only
by whoever asks for it: texts stay escaped (`Json.Text`), and of a number only
its sign, its whole part and whether it is written as an integer are kept.

Key definitions: `Value`, `Value.read`.
-/
import VerifiedCopy.Json.Text

namespace VerifiedCopy
namespace Json

/-- The left square bracket. -/
@[match_pattern] def openList : UInt8 := 0x5B

/-- The right square bracket. -/
@[match_pattern] def closeList : UInt8 := 0x5D

/-- The left brace. -/
@[match_pattern] def openObject : UInt8 := 0x7B

/-- The right brace. -/
@[match_pattern] def closeObject : UInt8 := 0x7D

/-- The comma. -/
@[match_pattern] def comma : UInt8 := 0x2C

/-- The colon. -/
@[match_pattern] def colon : UInt8 := 0x3A

/-- The minus sign. -/
@[match_pattern] def minus : UInt8 := 0x2D

/-- The decimal point. -/
@[match_pattern] def point : UInt8 := 0x2E

/-- The digit zero. -/
@[match_pattern] def zero : UInt8 := 0x30

/-- A JSON value. -/
inductive Value where
  | null
  | bool (b : Bool)
  /-- A number: whether it has a minus sign, its whole part, and whether it has
  neither a fraction nor an exponent. -/
  | number (negative : Bool) (whole : Nat) (integral : Bool)
  /-- A text, escaped. -/
  | text (raw : Bytes)
  | list (items : List Value)
  /-- The members of an object in order, their keys escaped. -/
  | object (members : List (Bytes × Value))

/-- Whether a byte may stand between the parts of a value. -/
def isBlank (c : UInt8) : Bool :=
  c == 0x20 || c == 0x09 || c == 0x0A || c == 0x0D

/-- The bytes after the blanks at the front. -/
def skipBlanks (b : Bytes) : Bytes := b.dropWhile isBlank

/-- Whether a byte is a decimal digit. -/
def isDigit (c : UInt8) : Bool := 0x30 ≤ c && c ≤ 0x39

/-- The number that decimal digits stand for. -/
def ofDigits (ds : Bytes) : Nat :=
  ds.foldl (fun n d => 10 * n + (d.toNat - 0x30)) 0

/-- What follows a word at the front. -/
def after? (word : String) (b : Bytes) : Option Bytes :=
  let w := Bytes.ofText word
  if b.take w.length = w then some (b.drop w.length) else none

/-- At least one digit, and what follows. -/
def digits? (b : Bytes) : Option (Bytes × Bytes) :=
  match b.takeWhile isDigit with
  | [] => none
  | ds => some (ds, b.dropWhile isDigit)

/-- The digits of a whole part, a single zero or a number that does not start
with one, and what follows. -/
def whole? : Bytes → Option (Bytes × Bytes)
  | zero :: rest => some ([zero], rest)
  | b => digits? b

/-- Whether a fraction stands at the front, and what follows it. -/
def fraction? : Bytes → Option (Bool × Bytes)
  | point :: rest => (digits? rest).map fun p => (true, p.2)
  | b => some (false, b)

/-- What follows the sign of an exponent, if there is a sign. -/
def skipSign : Bytes → Bytes
  | c :: rest => if c = 0x2B ∨ c = 0x2D then rest else c :: rest
  | [] => []

/-- Whether an exponent stands at the front, and what follows it. -/
def exponent? : Bytes → Option (Bool × Bytes)
  | c :: rest =>
    if c = 0x65 ∨ c = 0x45 then (digits? (skipSign rest)).map fun p => (true, p.2)
    else some (false, c :: rest)
  | [] => some (false, [])

/-- A number without its sign, and what follows. -/
def magnitude? (negative : Bool) (b : Bytes) : Option (Value × Bytes) := do
  let (whole, rest) ← whole? b
  let (fraction, rest) ← fraction? rest
  let (exponent, rest) ← exponent? rest
  return (.number negative (ofDigits whole) (!fraction && !exponent), rest)

/-- A number, and what follows. -/
def number? : Bytes → Option (Value × Bytes)
  | minus :: rest => magnitude? true rest
  | b => magnitude? false b

/-- A key with its colon, and what follows. -/
def key? : Bytes → Option (Bytes × Bytes)
  | mark :: rest => do
    let (raw, rest) ← Text.scan rest
    match skipBlanks rest with
    | colon :: rest => some (raw, skipBlanks rest)
    | _ => none
  | _ => none

namespace Value

mutual

/-- A value at the front, and what follows. The first argument bounds the
nesting and the number of items. -/
def value? : Nat → Bytes → Option (Value × Bytes)
  | 0, _ => none
  | n + 1, b =>
    match b with
    | [] => none
    | mark :: rest => (Text.scan rest).map fun p => (.text p.1, p.2)
    | openList :: rest =>
      match skipBlanks rest with
      | closeList :: rest => some (.list [], rest)
      | rest => (items? n rest).map fun p => (.list p.1, p.2)
    | openObject :: rest =>
      match skipBlanks rest with
      | closeObject :: rest => some (.object [], rest)
      | rest => (members? n rest).map fun p => (.object p.1, p.2)
    | b =>
      match after? "null" b, after? "true" b, after? "false" b with
      | some rest, _, _ => some (.null, rest)
      | _, some rest, _ => some (.bool true, rest)
      | _, _, some rest => some (.bool false, rest)
      | _, _, _ => number? b

/-- The items of a list up to its bracket, and what follows. -/
def items? : Nat → Bytes → Option (List Value × Bytes)
  | 0, _ => none
  | n + 1, b => do
    let (v, rest) ← value? n b
    match skipBlanks rest with
    | closeList :: rest => some ([v], rest)
    | comma :: rest => (items? n (skipBlanks rest)).map fun p => (v :: p.1, p.2)
    | _ => none

/-- The members of an object up to its brace, and what follows. -/
def members? : Nat → Bytes → Option (List (Bytes × Value) × Bytes)
  | 0, _ => none
  | n + 1, b => do
    let (k, rest) ← key? b
    let (v, rest) ← value? n rest
    match skipBlanks rest with
    | closeObject :: rest => some ([(k, v)], rest)
    | comma :: rest => (members? n (skipBlanks rest)).map fun p => ((k, v) :: p.1, p.2)
    | _ => none

end

/-- The value that a whole file holds. -/
def read (b : Bytes) : Option Value := do
  let (v, rest) ← value? (2 * b.length + 2) (skipBlanks b)
  if skipBlanks rest = [] then some v else none

/-- An integer below `limit`. -/
def toNat? (limit : Nat) : Value → Option Nat
  | number false n true => if n < limit then some n else none
  | _ => none

/-- A truth value. -/
def toBool? : Value → Option Bool
  | bool b => some b
  | _ => none

/-- A text. -/
def toText? : Value → Option String
  | text raw => Text.toText? raw
  | _ => none

/-- A list of texts. -/
def toTexts? : Value → Option (List String)
  | list items => items.mapM toText?
  | _ => none

/-- The members of an object, if every key is a text. -/
def keyed? : List (Bytes × Value) → Option (List (String × Value))
  | [] => some []
  | (k, v) :: rest => do
    let k ← Text.toText? k
    return (k, v) :: (← keyed? rest)

/-- The one value under a key: `none` inside if there is none, `none` outside if
there are several. -/
def single? (key : String) (members : List (String × Value)) : Option (Option Value) :=
  match members.filter (fun m => m.1 == key) with
  | [] => some none
  | [m] => some (some m.2)
  | _ => none

/-- The values of the fields of a record, in order. A record is an object, in
which other fields are ignored and none of these may stand twice, or a list of
the first fields in order. -/
def fields? (names : List String) : Value → Option (List (Option Value))
  | object members => do
    let members ← keyed? members
    names.mapM fun name => single? name members
  | list items =>
    if items.length ≤ names.length then
      some (items.map some ++ List.replicate (names.length - items.length) none)
    else none
  | _ => none

end Value
end Json
end VerifiedCopy
