import AdFilter.Glob.Basic
import AdFilter.Regex.Expression

/-!
# Address patterns as expressions

`source?` writes the expression of an address pattern as text, in one pass over its characters. What a
character writes depends on the byte where it stands: the first and the last one, and the one behind
the first of two bars, have places of their own. The expression is what the text is compiled to
(`regex?`).
-/

namespace AdFilter.Glob

def separatorClass : List Char :=
  "[^a-zA-Z0-9_.%-]".toList

/-- A scheme, the two slashes, and any labels before the one that the pattern names. -/
def hostLead : List Char :=
  "(?:[^:]+://(?:[^/]+\\.)?)".toList

/-- What the character at a byte of a pattern writes. The last byte has the number `last`. -/
def written (isHostAnchored : Bool) (last place : Nat) (c : Char) : List Char :=
  if c = '^' then
    ['(', '?', ':'] ++ (if place = 0 then ['^', '|'] else []) ++ separatorClass ++
      (if place = last then ['|', '$'] else []) ++ [')']
  else if c = '*' then ['.', '*']
  else if c = '|' then
    (if place = last then ['$'] else []) ++ (if place = 0 then ['^'] else []) ++
      (if place = 1 ∧ isHostAnchored then hostLead else [])
  else Regex.escape c

def writtenFrom (isHostAnchored : Bool) (last place : Nat) : List Char → List Char
  | [] => []
  | c :: rest =>
    written isHostAnchored last place c ++
      writtenFrom isHostAnchored last (place + c.utf8Size) rest

/-- The text of the expression that a pattern stands for, if it has a special character. -/
def source? (pattern : String) (matchCase : Bool) : Option String :=
  let chars := pattern.toList
  if chars.any isSpecial then
    let isHostAnchored := ['|', '|'].isPrefixOf chars
    some (String.ofList ((if matchCase then [] else Regex.caselessFlag) ++
      writtenFrom isHostAnchored (pattern.utf8ByteSize - 1) 0 chars))
  else none

def regex? (pattern : String) (matchCase : Bool) : Option Regex :=
  (source? pattern matchCase).bind Regex.compile?

end AdFilter.Glob
