import AdFilter.Hide.Merge

/-!
# The index of element-hide entries

The index knows how far its entries are merged, so that a pass that has nothing to do is left out.
Pages are to be asked about when at least the first pass has been made.
-/

namespace AdFilter

/-- How far the entries of an index are merged. -/
inductive MergeStage where
  | raw
  | bySelector
  | byScope
  deriving DecidableEq, Repr, Inhabited

structure HideIndex where
  entries : Array HideEntry := #[]
  stage : MergeStage := .raw
  deriving Inhabited

namespace HideIndex

def size (h : HideIndex) : Nat :=
  h.entries.size

def insert (h : HideIndex) (e : HideEntry) : HideIndex where
  entries := h.entries.push e
  stage := .raw

def mergeBySelector (h : HideIndex) : HideIndex :=
  match h.stage with
  | .raw => {
      entries := (HideEntry.mergeBySelector h.entries.toList).toArray
      stage := .bySelector }
  | .bySelector | .byScope => h

/-- Merges by selector and then by scope, unless that is done. -/
def mergeByScope (h : HideIndex) : HideIndex :=
  match h.stage with
  | .raw | .bySelector => {
      entries := (HideEntry.mergeByScope h.mergeBySelector.entries.toList).toArray
      stage := .byScope }
  | .byScope => h

/-- Makes the passes that a query needs, and the second one if it is wanted. -/
def finalize (h : HideIndex) (byScope : Bool) : HideIndex :=
  if byScope then h.mergeByScope else h.mergeBySelector

def query (h : HideIndex) (page : Domain) : List HideEntry :=
  h.entries.toList.filter (·.scope.contains page)

def selectorsFor (h : HideIndex) (page : String) : List String :=
  (h.query (Domain.ofHost page)).flatMap (·.selectors)

/-- The numbers of entries before and after merging by scope. -/
structure MergeCounts where
  before : Nat
  after : Nat
  deriving DecidableEq, Repr

def optimize (h : HideIndex) : MergeCounts × HideIndex :=
  let selected := h.mergeBySelector
  let merged := selected.mergeByScope
  ({ before := selected.size, after := merged.size }, merged)

end HideIndex

end AdFilter
