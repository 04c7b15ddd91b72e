import AdFilter.DomainSet
import AdFilter.Pattern
import AdFilter.Url

/-!
# Blocking rules

A rule blocks the requests that it matches, or, as an exception, lets them pass. It looks at the
address of the request by its pattern, at the source of the request by its domain constraints, and
at both by its party.
-/

namespace AdFilter

/-- How the domain constraints of rules are compared with a source. -/
inductive ConstraintMode where
  /-- the source is the name of the constraint, letter by letter -/
  | exact
  /-- the host of the source is in the domain of the constraint -/
  | hierarchical
  deriving DecidableEq, Repr, Inhabited

/-- An entry of the `domain` option: a name, and whether a `~` stands before it. -/
structure DomainConstraint where
  name : String
  negated : Bool
  deriving DecidableEq, Repr

namespace DomainConstraint

def ofChars : List Char → DomainConstraint
  | '~' :: name => { name := String.ofList name, negated := true }
  | name => { name := String.ofList name, negated := false }

def domain (c : DomainConstraint) : Domain :=
  Domain.ofHost c.name

def appliesTo (c : DomainConstraint) (mode : ConstraintMode) (source : String) : Bool :=
  match mode with
  | .exact => c.name == source
  | .hierarchical => c.domain.covers (Domain.ofHost (Url.sourceHost source))

/-- Whether the entry by itself lets the source through. -/
def admits (c : DomainConstraint) (mode : ConstraintMode) (source : String) : Bool :=
  c.negated != c.appliesTo mode source

end DomainConstraint

/-- The relation between source and request that a rule asks for. With both fields set, it is the
third party that counts. -/
structure Party where
  first : Bool := false
  third : Bool := false
  deriving DecidableEq, Repr, Inhabited

namespace Party

def isAny (p : Party) : Bool :=
  !p.first && !p.third

/-- Whether source and request stand in the relation. Two hosts that cannot be read never do. -/
def admits (p : Party) (source request : String) : Bool :=
  p.isAny ||
    match Url.hostOf source, Url.hostOf request with
    | some s, some r => (s == r) != p.third
    | _, _ => false

end Party

/-- A blocking rule, or an exception from such rules. -/
structure Rule where
  /-- the line that the rule was written as -/
  text : String
  isException : Bool := false
  matchCase : Bool := false
  pattern : Pattern
  /-- a part of the pattern that every matched address is expected to hold; it may be empty -/
  keyword : String := ""
  domains : List DomainConstraint := []
  party : Party := {}
  deriving DecidableEq, Repr

namespace Rule

instance : ToString Rule where
  toString r := r.text

/-- Whether the domain constraints let the source through: one of them does, or there are none. -/
def admitsSource (r : Rule) (mode : ConstraintMode) (source : String) : Bool :=
  r.domains.isEmpty || r.domains.any (·.admits mode source)

/-- Whether the rule matches a request that comes from a source. -/
def isMatch (r : Rule) (mode : ConstraintMode) (source request : String) : Bool :=
  r.admitsSource mode source && r.pattern.isMatch request && r.party.admits source request

end Rule

end AdFilter
