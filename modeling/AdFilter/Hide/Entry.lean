import AdFilter.DomainSet

/-!
# Element-hide entries

An entry hides the elements that some selectors pick, on the pages of its scope: the pages below
one of its domains, or all pages if it names none, less those below a domain that it excludes.
-/

namespace AdFilter

/-- The pages that an entry is for. -/
structure Scope where
  domains : DomainSet := ∅
  exclude : DomainSet := ∅
  deriving DecidableEq, Inhabited

namespace Scope

@[ext]
theorem ext {a b : Scope} (hd : a.domains = b.domains) (he : a.exclude = b.exclude) : a = b := by
  cases a; cases b; cases hd; cases he; rfl

/-- Whether the scope names no domain at all, and so is every page. -/
def isGeneric (s : Scope) : Bool :=
  s.domains.isEmpty && s.exclude.isEmpty

/-- Whether a page is in the scope. To exclude counts for more than to name. -/
def contains (s : Scope) (page : Domain) : Bool :=
  s.isGeneric || (!s.exclude.covers page && (s.domains.isEmpty || s.domains.covers page))

def union (a b : Scope) : Scope where
  domains := a.domains.union b.domains
  exclude := a.exclude.union b.exclude

/-- Scopes are ordered by their domains, then by what they exclude. -/
def order : Scope → Scope → Ordering :=
  compareLex (compareOn Scope.domains) (compareOn Scope.exclude)

instance : Ord Scope := ⟨order⟩

instance : Std.TransCmp order :=
  inferInstanceAs (Std.TransCmp (compareLex (compareOn Scope.domains) (compareOn Scope.exclude)))

instance : Std.TransOrd Scope :=
  inferInstanceAs (Std.TransCmp order)

instance : Std.LawfulEqOrd Scope where
  compare_self := Std.ReflCmp.compare_self
  eq_of_compare {a b} h := by
    have h : order a b = .eq := h
    rw [order, compareLex, Ordering.then_eq_eq] at h
    exact ext (Std.LawfulEqOrd.eq_of_compare (α := DomainSet) h.1)
      (Std.LawfulEqOrd.eq_of_compare (α := DomainSet) h.2)

end Scope

/-- Selectors, and the pages on which the elements that they pick are hidden. -/
structure HideEntry where
  scope : Scope
  selectors : List String
  deriving DecidableEq, Inhabited

end AdFilter
