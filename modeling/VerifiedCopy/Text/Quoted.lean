/-
# Quoted text in messages

Text that stands in a message between quotes is escaped so that the message
stays on one line: backslash, the quote in use, and the controls tab, line feed,
carriage return and NUL have short forms, and other characters that cannot be
printed are written as `\u` with their number in hexadecimal in braces.

Key definitions: `Text.quote`, `Text.quoteChar`.
-/
import VerifiedCopy.Text.Unprintable

namespace VerifiedCopy
namespace Text

/-- The escaped form of a character with a short one. -/
def short? (c : Char) : Option String :=
  if c = '\x00' then some "\\0"
  else if c = '\t' then some "\\t"
  else if c = '\n' then some "\\n"
  else if c = '\r' then some "\\r"
  else if c = '\\' then some "\\\\"
  else none

/-- The number of a character in hexadecimal, in braces. -/
def numbered (c : Char) : String :=
  "\\u\x7b" ++ String.ofList (Nat.toDigits 16 c.toNat) ++ "\x7d"

/-- A character as it stands between the given quotes. -/
def escape (mark : Char) (c : Char) : String :=
  match short? c with
  | some s => s
  | none =>
    if c = mark then String.ofList ['\\', c]
    else if isUnprintable c then numbered c
    else String.singleton c

/-- A text between double quotes. -/
def quote (s : String) : String :=
  "\"" ++ String.join (s.toList.map (escape '"')) ++ "\""

/-- A character between single quotes. -/
def quoteChar (c : Char) : String :=
  "'" ++ escape '\'' c ++ "'"

end Text
end VerifiedCopy
