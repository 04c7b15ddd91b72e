import AdFilter.Text.CaseFold

/-!
# Regular expressions

An expression is a tree of parts, together with the text that it was written as. Flags are no parts:
what they say is said at the characters and anchors that they apply to.
-/

namespace AdFilter

namespace Regex

/-- An expression for one character. -/
inductive Atom where
  | char (c : Char) (caseless : Bool)
  /-- any character, the line feed only if it is asked for -/
  | any (lineFeed : Bool)
  /-- a character in some ranges, or one outside them -/
  | oneOf (negated : Bool) (ranges : List (Char × Char)) (caseless : Bool)
  deriving DecidableEq, Repr

inductive Anchor where
  | textStart
  | textEnd
  | lineStart
  | lineEnd
  deriving DecidableEq, Repr

inductive Part where
  | empty
  | never
  | one (a : Atom)
  | anchor (a : Anchor)
  | seq (p q : Part)
  | alt (p q : Part)
  /-- the part `least` times in a row, and then up to `more` times, or any number of times -/
  | repeated (p : Part) (least : Nat) (more : Option Nat)
  deriving DecidableEq, Repr

end Regex

structure Regex where
  source : String
  part : Regex.Part
  deriving DecidableEq, Repr

namespace Regex

instance : ToString Regex where
  toString r := r.source

/-- Whether a character lies in a range, or is equal but for case to one that does. -/
def inRange (caseless : Bool) (range : Char × Char) (c : Char) : Bool :=
  (range.1 ≤ c && c ≤ range.2) ||
    (caseless && (List.range' range.1.toNat (range.2.toNat + 1 - range.1.toNat)).any
      fun n => Text.fold (Char.ofNat n) == Text.fold c)

def Atom.accepts (c : Char) : Atom → Bool
  | .char d caseless => c == d || (caseless && Text.fold c == Text.fold d)
  | .any lineFeed => lineFeed || c != '\n'
  | .oneOf negated ranges caseless => negated != ranges.any (inRange caseless · c)

/-- Whether the anchor holds between two characters. There is none at an end of the text. -/
def Anchor.holds (previous next : Option Char) : Anchor → Bool
  | .textStart => previous.isNone
  | .textEnd => next.isNone
  | .lineStart => previous.all (· == '\n')
  | .lineEnd => next.all (· == '\n')

/-! ## Syntax -/

def metaCharacters : List Char :=
  ['\\', '.', '+', '*', '?', '(', ')', '|', '[', ']', '\x7b', '\x7d', '^', '$', '#', '&', '-', '~']

/-- A character as an expression for itself. -/
def escape (c : Char) : List Char :=
  if c ∈ metaCharacters then ['\\', c] else [c]

def caselessFlag : List Char :=
  ['(', '?', 'i', ')']

end Regex

end AdFilter
