import AdFilter.Rule

/-!
# Verdicts
-/

namespace AdFilter

/-- What is decided about a request. A verdict that was remembered no longer knows the rule that
blocked the request. -/
inductive Verdict where
  | allowed
  | blocked (rule : Option Rule)
  | excepted (exception : Rule)
  deriving DecidableEq, Repr

namespace Verdict

def isBlocked : Verdict → Bool
  | .blocked _ => true
  | _ => false

def rule? : Verdict → Option Rule
  | .allowed => none
  | .blocked rule => rule
  | .excepted exception => some exception

def word : Verdict → String
  | .allowed => "allowed"
  | .blocked _ => "blocked"
  | .excepted _ => "excepted"

instance : ToString Verdict where
  toString
    | .allowed => "allowed"
    | .blocked (some rule) => "blocked by " ++ rule.text
    | .blocked none => "blocked (cached)"
    | .excepted exception => "allowed by exception " ++ exception.text

end Verdict

end AdFilter
