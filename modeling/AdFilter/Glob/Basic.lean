/-!
# Address patterns

An address pattern is plain text in which three characters are special: `*` stands for any run of
characters, `^` for a separator, and `|` for an end of the address, or, as the second of two at the
start, for everything up to a label of the host.
-/

namespace AdFilter.Glob

def isSpecial (c : Char) : Bool :=
  c == '^' || c == '*' || c == '|'

/-- How many wildcards and separators an expression may have. What is limited is the size of a compiled
expression, at 10 MiB. This is an estimate of it: what is large in an expression are its classes of
Unicode characters, one for each wildcard and each separator, at some 500 bytes. -/
def sizeLimit : Nat := 20000

def isTooLarge (pattern : String) : Bool :=
  sizeLimit ≤ pattern.toList.countP fun c => c == '*' || c == '^'

end AdFilter.Glob
