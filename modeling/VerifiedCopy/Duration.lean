/-
# Durations

A duration is a whole number of nanoseconds. It is written in the largest of
the units `s`, `ms`, `µs`, `ns` in which it is at least one, exactly, with no
zeros at the end of the fraction.

Key definition: `Duration.text`.
-/
namespace VerifiedCopy

/-- A length of time. -/
structure Duration where
  nanoseconds : Nat
deriving DecidableEq

namespace Duration

/-- `n` milliseconds. -/
def ofMilliseconds (n : Nat) : Duration := ⟨n * 1000000⟩

/-- `s` seconds and `n` nanoseconds. -/
def ofSeconds (s n : Nat) : Duration := ⟨s * 1000000000 + n⟩

/-- Up to `width` decimals of `n / 10 ^ width`, ending at the last one that is
not zero. -/
def decimals : Nat → Nat → List Nat
  | 0, _ => []
  | width + 1, n =>
    if n = 0 then [] else n / Nat.pow 10 width :: decimals width (n % Nat.pow 10 width)

/-- `n / 10 ^ width` in decimal notation with its unit. -/
def inUnit (n width : Nat) (unit : String) : String :=
  let whole := toString (n / Nat.pow 10 width)
  match decimals width (n % Nat.pow 10 width) with
  | [] => whole ++ unit
  | ds => whole ++ "." ++ String.join (ds.map toString) ++ unit

/-- The duration in its largest unit. -/
def text (d : Duration) : String :=
  let n := d.nanoseconds
  if 1000000000 ≤ n then inUnit n 9 "s"
  else if 1000000 ≤ n then inUnit n 6 "ms"
  else if 1000 ≤ n then inUnit n 3 "µs"
  else inUnit n 0 "ns"

end Duration
end VerifiedCopy
