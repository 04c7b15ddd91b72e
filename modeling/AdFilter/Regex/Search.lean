import AdFilter.Regex.Basic

/-!
# Searching a text

`Regex.search` says whether an expression matches some factor of a text. It works backwards: a
row says, for every position of the text, the end included, whether what is left of the expression
matches from there, and every part turns the row behind it into the row before it. A text of `n`
characters has rows of `n + 1` entries. No row takes more than `n` steps to the front, so a part that
may stand in it any number of times need not be tried more often than that.
-/

namespace AdFilter.Regex

/-- One entry for each position of a text. -/
abbrev Row := List Bool

/-- The positions from which one character of the class leads into the row. -/
def takeOne (accepts : Char → Bool) : List Char → Row → Row
  | [], _ => [false]
  | c :: s, row => (row.tail.headD false && accepts c) :: takeOne accepts s row.tail

/-- The positions from which some characters of the class, or none, lead into the row. -/
def takeMany (accepts : Char → Bool) : List Char → Row → Row
  | [], row => row
  | c :: s, row =>
    let next := takeMany accepts s row.tail
    (row.headD false || (next.headD false && accepts c)) :: next

/-- The positions of the row that have the right characters around them. -/
def takeAnchor (holds : (previous next : Option Char) → Bool) (previous : Option Char) :
    List Char → Row → Row
  | [], row => [row.headD false && holds previous none]
  | c :: s, row =>
    (row.headD false && holds previous (some c)) :: takeAnchor holds (some c) s row.tail

def exactly (step : Row → Row) (row : Row) : (n : Nat) → Row
  | 0 => row
  | n + 1 => step (exactly step row n)

def upTo (step : Row → Row) (row : Row) : (n : Nat) → Row
  | 0 => row
  | n + 1 => List.zipWith or row (step (upTo step row n))

/-- The row before any number of steps over a part. One pass is enough over single characters. -/
def anyNumber (step : Row → Row) (text : List Char) (row : Row) : Part → Row
  | .one a => takeMany (a.accepts ·) text row
  | _ => upTo step row text.length

/-- The row before a part, from the row behind it. -/
def Part.back (text : List Char) : Part → Row → Row
  | .empty, row => row
  | .never, row => row.map fun _ => false
  | .one a, row => takeOne (a.accepts ·) text row
  | .anchor a, row => takeAnchor a.holds none text row
  | .seq p q, row => p.back text (q.back text row)
  | .alt p q, row => List.zipWith or (p.back text row) (q.back text row)
  | .repeated p least none, row =>
    exactly (p.back text) (anyNumber (p.back text) text row p) least
  | .repeated p least (some n), row => exactly (p.back text) (upTo (p.back text) row n) least

def row (r : Regex) (text : List Char) : Row :=
  r.part.back text (List.replicate (text.length + 1) true)

/-- Whether the expression matches some factor of a text. -/
def search (r : Regex) (text : String) : Bool :=
  (r.row text.toList).any id

end AdFilter.Regex
