/-!
# Blank space

`isBlank` is Unicode's `White_Space` property. Lines are trimmed of it at both ends, and the
request lines of the filter command are cut into words at it.
-/

namespace AdFilter.Text

/-- The characters with the `White_Space` property. -/
def isBlank (c : Char) : Bool :=
  let n := c.toNat
  (9 ≤ n && n ≤ 13) || n == 0x20 || n == 0x85 || n == 0xA0 || n == 0x1680 ||
    (0x2000 ≤ n && n ≤ 0x200A) || n == 0x2028 || n == 0x2029 || n == 0x202F || n == 0x205F ||
    n == 0x3000

def trimStart (s : List Char) : List Char :=
  s.dropWhile isBlank

def trimEnd (s : List Char) : List Char :=
  (s.reverse.dropWhile isBlank).reverse

/-- A text without the blank characters at its two ends. -/
def trim (s : List Char) : List Char :=
  trimEnd (trimStart s)

@[simp]
theorem trim_nil : trim [] = [] :=
  rfl

end AdFilter.Text
