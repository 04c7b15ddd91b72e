import AdFilter.FilterList
import AdFilter.ResultCache
import AdFilter.Stats

/-!
# The engine

An engine decides requests by its rules and remembers the results. `evaluate` looks at the rules
alone; `answer` asks the cache first, and tells what it did as events. A remembered result is
either blocked or not, so a verdict from the cache names no rule.
-/

namespace AdFilter

namespace Engine

structure Config where
  cacheCapacity : Nat := ResultCache.defaultCapacity
  constraintMode : ConstraintMode := .exact
  mergeByScope : Bool := true
  deriving DecidableEq, Repr, Inhabited

instance : ToString Config where
  toString c :=
    "EngineConfig \x7b cache_capacity: " ++ toString c.cacheCapacity ++
      ", constraint_matching: " ++
      (match c.constraintMode with
        | .exact => "Exact"
        | .hierarchical => "Hierarchical") ++
      ", merge_hides_by_scope: " ++ toString c.mergeByScope ++ " \x7d"

inductive Error where
  | zeroCapacity
  | unreadable (cause : ReadError)
  deriving DecidableEq, Repr

def Error.message : Error → String
  | .zeroCapacity => "cache capacity must be at least 1, got 0"
  | .unreadable cause => "failed to read rules: " ++ cause.message

end Engine

structure Engine where
  index : RuleIndex
  cache : ResultCache
  config : Engine.Config

namespace Engine

/-- An engine with an empty cache. The element-hide entries are merged as the configuration
says. -/
def create (index : RuleIndex) (config : Config) : Except Error Engine :=
  match ResultCache.empty? config.cacheCapacity with
  | some cache => .ok { index := index.finalizeHides config.mergeByScope, cache, config }
  | none => .error .zeroCapacity

def evaluate (e : Engine) (source request : String) : Verdict :=
  e.index.evaluate e.config.constraintMode source request

/-- The verdict that a remembered result gives. -/
def remembered (blocked : Bool) : Verdict :=
  if blocked then .blocked none else .allowed

structure Decision where
  verdict : Verdict
  /-- whether the verdict comes from the cache -/
  cached : Bool
  engine : Engine

/-- Decides a request, from the cache if possible. -/
def answer : Engine → (source request : String) → Decision
  | { index, cache, config }, source, request =>
    match cache.get? ⟨source, request⟩ with
    | (some blocked, cache) =>
      { verdict := remembered blocked, cached := true, engine := { index, cache, config } }
    | (none, cache) =>
      let verdict := index.evaluate config.constraintMode source request
      { verdict, cached := false,
        engine := { index, cache := cache.set ⟨source, request⟩ verdict.isBlocked, config } }

def Decision.events (d : Decision) (elapsed : Nat) : List Event :=
  [if d.cached then .cacheHit d.verdict.isBlocked else .cacheMiss, .verdict d.verdict elapsed]

def hideEntries (e : Engine) (page : String) : List HideEntry :=
  e.index.hides.query (Domain.ofHost page)

def hidesFor (e : Engine) (page : String) : List String :=
  e.index.hides.selectorsFor page

instance : ToString Engine where
  toString e :=
    "Matcher \x7b rules: " ++ toString e.index.ruleCount ++
      ", hides: " ++ toString e.index.hides.size ++
      ", cache: " ++ toString e.cache ++ ", config: " ++ toString e.config ++ " \x7d"

end Engine

end AdFilter
