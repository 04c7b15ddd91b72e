import AdFilter.FilterLine.Basic
import AdFilter.Hide.Index
import AdFilter.KeywordIndex
import AdFilter.Verdict

/-!
# The rules of all lists

Everything that filter lists hold, sorted by what it is for: blocking rules, exceptions and
element-hide entries.
-/

namespace AdFilter

structure RuleIndex where
  block : KeywordIndex := .empty
  exception : KeywordIndex := .empty
  hides : HideIndex := {}
  deriving Inhabited

namespace RuleIndex

def addRule (index : RuleIndex) (rule : Rule) : RuleIndex :=
  if rule.isException then { index with exception := index.exception.insert rule }
  else { index with block := index.block.insert rule }

def addHide (index : RuleIndex) (entry : HideEntry) : RuleIndex :=
  { index with hides := index.hides.insert entry }

def add (index : RuleIndex) : FilterLine.Item → RuleIndex
  | .rule r => index.addRule r
  | .hide e => index.addHide e

def addAll (index : RuleIndex) (items : List FilterLine.Item) : RuleIndex :=
  items.foldl add index

def ruleCount (index : RuleIndex) : Nat :=
  index.block.size + index.exception.size

/-- The number of rules without a keyword, which every request is tested against. -/
def unkeyedCount (index : RuleIndex) : Nat :=
  index.block.unkeyed.size + index.exception.unkeyed.size

/-- Merges the element-hide entries as far as queries need, and by scope if that is wanted. -/
def finalizeHides (index : RuleIndex) (byScope : Bool) : RuleIndex :=
  { index with hides := index.hides.finalize byScope }

/-- Merges the element-hide entries by selector and by scope, and counts them. -/
def optimize (index : RuleIndex) : HideIndex.MergeCounts × RuleIndex :=
  let (counts, hides) := index.hides.optimize
  (counts, { index with hides })

/-- The verdict on a request: a blocking rule must match, and no exception. -/
def evaluate (index : RuleIndex) (mode : ConstraintMode) (source request : String) : Verdict :=
  match index.block.find? mode source request with
  | none => .allowed
  | some rule =>
    match index.exception.find? mode source request with
    | some exception => .excepted exception
    | none => .blocked (some rule)

end RuleIndex

end AdFilter
