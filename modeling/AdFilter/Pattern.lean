import AdFilter.Fingerprint
import AdFilter.Glob.Source
import AdFilter.Regex.Search
import AdFilter.Text.Quoted

/-!
# Compiled patterns

A pattern without special characters is looked for as it stands; any other is an expression.
-/

namespace AdFilter

inductive Pattern where
  | literal (text : Fingerprint)
  | glob (regex : Regex)
  deriving DecidableEq, Repr

namespace Pattern

def compile (text : String) (matchCase : Bool) : Pattern :=
  match Glob.regex? text matchCase with
  | some regex => .glob regex
  | none => .literal (Fingerprint.ofString text)

def isMatch (p : Pattern) (url : String) : Bool :=
  match p with
  | .literal f => f.occursIn (Text.utf8 url.toList)
  | .glob r => r.search url

def isLiteral : Pattern → Bool
  | .literal _ => true
  | .glob _ => false

/-- The text to look for in quotes, or the expression. -/
instance : ToString Pattern where
  toString
    | .literal f => Text.quoted f.literal
    | .glob r => toString r

end Pattern

end AdFilter
