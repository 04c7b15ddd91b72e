import AdFilter.Text.Split

/-!
# Domains

A domain is a host name as its list of labels, the most significant one first, in lower-case
ASCII. It covers itself and everything below it: `example.com` covers `www.example.com`. Since
the labels are in this order, to cover is to be a prefix.
-/

namespace AdFilter

/-- The labels of a host name, the most significant one first. -/
structure Domain where
  labels : List String
  deriving DecidableEq, Repr, Hashable

namespace Domain

def ofChars (host : List Char) : Domain where
  labels := ((Text.split (· == '.') host).map fun label =>
    String.ofList (label.map Char.toLower)).reverse

/-- The domain of a host name. Every text has one; the empty text has one empty label. -/
def ofHost (host : String) : Domain :=
  ofChars host.toList

/-- Whether `other` is the domain itself or lies below it. -/
def covers (d other : Domain) : Bool :=
  d.labels.isPrefixOf other.labels

theorem covers_iff {d other : Domain} : d.covers other = true ↔ d.labels <+: other.labels :=
  List.isPrefixOf_iff_prefix

instance : ToString Domain where
  toString d := ".".intercalate d.labels.reverse

/-! ## Order -/

/-- Domains are ordered by their labels, the most significant one first. -/
instance : Ord Domain where
  compare a b := compare a.labels b.labels

theorem compare_def (a b : Domain) : compare a b = compare a.labels b.labels :=
  rfl

instance : Std.TransOrd Domain where
  eq_swap := Std.OrientedOrd.eq_swap (α := List String)
  isLE_trans := Std.TransOrd.isLE_trans (α := List String)

instance : Std.LawfulEqOrd Domain where
  compare_self := Std.ReflOrd.compare_self (α := List String)
  eq_of_compare {a b} h := by
    cases a; cases b
    simpa [compare_def] using h

end Domain

end AdFilter
