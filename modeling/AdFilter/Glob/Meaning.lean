import AdFilter.Glob.Basic
import AdFilter.Text.CaseFold

/-!
# What an address pattern means

`pieces` gives every character of a pattern what its place adds to its meaning, and `Consumes` reads
the pieces against a text from left to right, without any expression in between.
-/

namespace AdFilter.Glob

/-- One character of a pattern, with what its place in the pattern adds to its meaning. -/
inductive Piece where
  | char (c : Char)
  | wildcard
  | separator (first last : Bool)
  | bar (first last : Bool)
  /-- the second of two bars at the start -/
  | hostBar (last : Bool)
  deriving DecidableEq, Repr

def piece (first last : Bool) (c : Char) : Piece :=
  if c = '^' then .separator first last
  else if c = '*' then .wildcard
  else if c = '|' then .bar first last
  else .char c

def laterPieces : List Char → List Piece
  | [] => []
  | c :: rest => piece false rest.isEmpty c :: laterPieces rest

def pieces : List Char → List Piece
  | [] => []
  | '|' :: '|' :: rest => .bar true false :: .hostBar rest.isEmpty :: laterPieces rest
  | c :: rest => piece true rest.isEmpty c :: laterPieces rest

/-- Equality of characters, but for case where it does not matter. -/
def SameChar (matchCase : Bool) (c d : Char) : Prop :=
  c = d ∨ (matchCase = false ∧ Text.fold c = Text.fold d)

/-- A character that separates: outside ASCII letters, digits and `_.%-`, and not equal to one of
these but for case where it does not matter. -/
def IsSeparator (matchCase : Bool) (c : Char) : Prop :=
  ∀ d : Char, d.isAlphanum = true ∨ d ∈ ['_', '.', '%', '-'] → ¬SameChar matchCase c d

/-- A scheme, `://`, and labels in front of a host. -/
def IsHostLead (mid : List Char) : Prop :=
  ∃ scheme labels, mid = scheme ++ [':', '/', '/'] ++ labels ∧ scheme ≠ [] ∧ ':' ∉ scheme ∧
    (labels = [] ∨ ∃ inner, labels = inner ++ ['.'] ∧ inner ≠ [] ∧ '/' ∉ inner)

/-- The piece consumes `mid` in the text `before ++ mid ++ after`. -/
def Piece.Consumes (matchCase : Bool) : Piece → (before mid after : List Char) → Prop
  | .char c, _, mid, _ => ∃ d, mid = [d] ∧ SameChar matchCase d c
  | .wildcard, _, mid, _ => '\n' ∉ mid
  | .separator first last, before, mid, after =>
      (∃ c, mid = [c] ∧ IsSeparator matchCase c) ∨
        (mid = [] ∧ ((first = true ∧ before = []) ∨ (last = true ∧ after = [])))
  | .bar first last, before, mid, after =>
      mid = [] ∧ (first = true → before = []) ∧ (last = true → after = [])
  | .hostBar last, _, mid, after => IsHostLead mid ∧ (last = true → mid ++ after = [])

/-- The pieces consume `mid` one after the other. -/
def Consumes (matchCase : Bool) : List Piece → (before mid after : List Char) → Prop
  | [], _, mid, _ => mid = []
  | p :: ps, before, mid, after => ∃ left right, mid = left ++ right ∧
      p.Consumes matchCase before left (right ++ after) ∧
      Consumes matchCase ps (before ++ left) right after

end AdFilter.Glob
