/-!
# Durations as text

A duration in nanoseconds is written in the largest unit of which it holds at least one, with its
exact fraction.
-/

namespace AdFilter.Duration

/-- The units above the nanosecond, the largest first: decimal places and sign. -/
def units : List (Nat × String) :=
  [(9, "s"), (6, "ms"), (3, "µs")]

def fractionDigits (places fraction : Nat) : List Char :=
  let digits := Nat.toDigits 10 fraction
  ((List.replicate (places - digits.length) '0' ++ digits).reverse.dropWhile (· == '0')).reverse

/-- The nanoseconds in a unit with some decimal places. -/
def scale : (places : Nat) → Nat
  | 0 => 1
  | places + 1 => 10 * scale places

def inUnit (nanos places : Nat) (sign : String) : String :=
  let fraction := fractionDigits places (nanos % scale places)
  toString (nanos / scale places) ++
    (if fraction.isEmpty then "" else "." ++ String.ofList fraction) ++ sign

def render (nanos : Nat) : String :=
  match units.find? fun (places, _) => scale places ≤ nanos with
  | some (places, sign) => inUnit nanos places sign
  | none => toString nanos ++ "ns"

end AdFilter.Duration
