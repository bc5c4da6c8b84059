/-
# Text in JSON

Between its quotes a JSON text stands escaped. `scan` finds the closing quote
and checks the escapes, `unescape` gives the bytes that are meant, and `escape`
writes bytes so that they come back: quotes, backslashes and control characters
are escaped, all else, UTF-8 included, stands for itself.

A scanned text need not be a text: its bytes may be no UTF-8 and an escape may
name half a surrogate pair. Only `toText?` objects to that, so a reader that
skips a text never does.

Key definitions: `scan`, `unescape`, `toText?`, `escape`, `quote`.
-/
import VerifiedCopy.Digest

namespace VerifiedCopy
namespace Json

/-- The quotation mark. -/
@[match_pattern] def mark : UInt8 := 0x22

/-- The backslash. -/
@[match_pattern] def slash : UInt8 := 0x5C

/-- The letter `u`. -/
@[match_pattern] def letterU : UInt8 := 0x75

namespace Text

/-- The byte that an escape of one letter stands for. -/
def ofLetter? (c : UInt8) : Option UInt8 :=
  if c = 0x22 ∨ c = 0x5C ∨ c = 0x2F then some c
  else if c = 0x62 then some 0x08
  else if c = 0x66 then some 0x0C
  else if c = 0x6E then some 0x0A
  else if c = 0x72 then some 0x0D
  else if c = 0x74 then some 0x09
  else none

/-- The number that four hexadecimal digits stand for. -/
def unit? (a b c d : UInt8) : Option Nat := do
  let a ← Hex.value? a
  let b ← Hex.value? b
  let c ← Hex.value? c
  let d ← Hex.value? d
  return ((a * 16 + b) * 16 + c) * 16 + d

/-- The escaped text up to the closing quote, and what follows the quote. -/
def scan : Bytes → Option (Bytes × Bytes)
  | [] => none
  | mark :: rest => some ([], rest)
  | slash :: letterU :: a :: b :: c :: d :: rest => do
    let _ ← unit? a b c d
    let (text, rest) ← scan rest
    return (slash :: letterU :: a :: b :: c :: d :: text, rest)
  | slash :: c :: rest => do
    let _ ← ofLetter? c
    let (text, rest) ← scan rest
    return (slash :: c :: text, rest)
  | c :: rest => do
    if c < 0x20 then none
    let (text, rest) ← scan rest
    return (c :: text, rest)

/-- The UTF-8 form of a character. -/
def utf8 (n : Nat) : Bytes :=
  Bytes.ofText (String.singleton (Char.ofNat n))

/-- Whether a unit is the first half of a surrogate pair. -/
def isLead (n : Nat) : Bool := 0xD800 ≤ n && n < 0xDC00

/-- Whether a unit is the second half of a surrogate pair. -/
def isTrail (n : Nat) : Bool := 0xDC00 ≤ n && n < 0xE000

/-- The bytes that an escaped text stands for. -/
def unescape : Bytes → Option Bytes
  | [] => some []
  | slash :: letterU :: a :: b :: c :: d :: slash :: letterU :: e :: f :: g :: h :: rest => do
    let n ← unit? a b c d
    if isLead n then
      let m ← unit? e f g h
      if isTrail m then
        return utf8 (0x10000 + (n - 0xD800) * 0x400 + (m - 0xDC00)) ++ (← unescape rest)
      else none
    else if isTrail n then none
    else return utf8 n ++ (← unescape (slash :: letterU :: e :: f :: g :: h :: rest))
  | slash :: letterU :: a :: b :: c :: d :: rest => do
    let n ← unit? a b c d
    if isLead n || isTrail n then none
    return utf8 n ++ (← unescape rest)
  | slash :: c :: rest => do
    let x ← ofLetter? c
    return x :: (← unescape rest)
  | c :: rest => do return c :: (← unescape rest)

/-- The text that an escaped text stands for, if it is one. -/
def toText? (raw : Bytes) : Option String := do
  Bytes.toText? (← unescape raw)

/-- The escaped form of one byte. -/
def escapeByte (c : UInt8) : Bytes :=
  if c = 0x22 ∨ c = 0x5C then [slash, c]
  else if c = 0x08 then [slash, 0x62]
  else if c = 0x0C then [slash, 0x66]
  else if c = 0x0A then [slash, 0x6E]
  else if c = 0x0D then [slash, 0x72]
  else if c = 0x09 then [slash, 0x74]
  else if c < 0x20 then
    slash :: Bytes.ofText "u00" ++ Bytes.ofText (String.ofList (Hex.encode [c]))
  else [c]

/-- The escaped form of a string of bytes. -/
def escape (b : Bytes) : Bytes :=
  b.flatMap escapeByte

/-- A text between its quotes. -/
def quote (s : String) : Bytes :=
  mark :: escape (Bytes.ofText s) ++ [mark]

end Text
end Json
end VerifiedCopy
