import AdFilter.Hide.Entry
import Std.Data.TreeMap

/-!
# Merging element-hide entries

Two passes bring entries into a normal form. `mergeBySelector` makes one entry of each selector,
with all scopes that it was declared with united, so that an exception reaches every declaration.
`mergeByScope` makes one entry of each scope, with all its selectors. Both passes go through an
ordered map, so their results are in order, whatever the order of the entries was.
-/

namespace AdFilter.HideEntry

/-- The scopes declared for each selector, united. -/
abbrev ScopeMap := Std.TreeMap String Scope

def addScope (map : ScopeMap) (scope : Scope) (selector : String) : ScopeMap :=
  map.alter selector fun declared => some ((declared.getD {}).union scope)

def scopeMap (entries : List HideEntry) : ScopeMap :=
  entries.foldl (fun map e => e.selectors.foldl (addScope · e.scope) map) ∅

/-- One entry for each selector, in the order of the selectors. -/
def mergeBySelector (entries : List HideEntry) : List HideEntry :=
  (scopeMap entries).toList.map fun (selector, scope) => { scope, selectors := [selector] }

/-- The selectors declared in each scope. -/
abbrev SelectorMap := Std.TreeMap Scope (List String)

/-- A list with a selector behind it, unless the list has it already. -/
def appendNew (selectors : List String) (selector : String) : List String :=
  if selector ∈ selectors then selectors else selectors ++ [selector]

def addSelectors (map : SelectorMap) (e : HideEntry) : SelectorMap :=
  map.alter e.scope fun declared => some (e.selectors.foldl appendNew (declared.getD []))

def selectorMap (entries : List HideEntry) : SelectorMap :=
  entries.foldl addSelectors ∅

/-- One entry for each scope, in the order of the scopes. -/
def mergeByScope (entries : List HideEntry) : List HideEntry :=
  (selectorMap entries).toList.map fun (scope, selectors) => { scope, selectors }

end AdFilter.HideEntry
