import AdFilter.Proofs.Hide.Index
import AdFilter.RuleIndex

/-!
# What a page hides

`Hides` says from the entries as they were put into an index which selectors a page hides: those
that are declared, unless one of the excluded domains covers the page, or there are domains and none
of them does. A merged index gives exactly these (`HideIndex.Holds.mem_selectorsFor_iff`), because
it has each selector once, with the union of its scopes.
-/

namespace AdFilter

/-- For a generic scope the check of its domains gives the same. -/
theorem Scope.contains_eq (s : Scope) (page : Domain) : s.contains page =
    (!s.exclude.covers page && (s.domains.isEmpty || s.domains.covers page)) := by
  rw [contains]
  cases hgeneric : s.isGeneric with
  | false => rfl
  | true =>
    obtain ⟨hdomains, hexclude⟩ := Bool.and_eq_true_iff.1 hgeneric
    have hcovers : s.exclude.covers page = false := by
      rw [DomainSet.isEmpty_iff] at hexclude
      rw [← Bool.not_eq_true, DomainSet.covers_iff]
      exact fun ⟨d, hd, _⟩ => hexclude d hd
    simp [hdomains, hcovers]

/-- A page is in a scope if no excluded domain covers it, and some domain does, if there is one. -/
theorem Scope.contains_iff {s : Scope} {page : Domain} :
    s.contains page = true ↔ (∀ d ∈ s.exclude, d.covers page = false) ∧
      ((∀ d, d ∉ s.domains) ∨ ∃ d ∈ s.domains, d.covers page = true) := by
  rw [contains_eq, Bool.and_eq_true, Bool.not_eq_true', ← Bool.not_eq_true, DomainSet.covers_iff,
    Bool.or_eq_true, DomainSet.isEmpty_iff, DomainSet.covers_iff]
  simp

namespace HideEntry

/-- The entries hide on the page what the selector picks. -/
structure Hides (entries : List HideEntry) (page : Domain) (selector : String) : Prop where
  declared : ∃ e ∈ entries, selector ∈ e.selectors
  not_excluded : ∀ d, InUnion Scope.exclude (declarations entries) selector d →
    d.covers page = false
  named : (∀ d, ¬InUnion Scope.domains (declarations entries) selector d) ∨
    ∃ d, InUnion Scope.domains (declarations entries) selector d ∧ d.covers page = true

theorem hides_iff_contains {entries : List HideEntry} {page : Domain} {selector : String} :
    Hides entries page selector ↔
      ∃ scope, (scopeMap entries)[selector]? = some scope ∧ scope.contains page = true := by
  have hrecords := records_scopeMap entries
  have hdeclared : selector ∈ scopeMap entries ↔ ∃ e ∈ entries, selector ∈ e.selectors := by
    simp only [hrecords.mem_iff, mem_declarations]
    constructor
    · rintro ⟨_, e, he, -, hs⟩
      exact ⟨e, he, hs⟩
    · rintro ⟨e, he, hs⟩
      exact ⟨e.scope, e, he, rfl, hs⟩
  have hcontains : ((scopeMap entries).getD selector {}).contains page = true ↔
      (∀ d, InUnion Scope.exclude (declarations entries) selector d → d.covers page = false) ∧
      ((∀ d, ¬InUnion Scope.domains (declarations entries) selector d) ∨
        ∃ d, InUnion Scope.domains (declarations entries) selector d ∧ d.covers page = true) := by
    simp only [Scope.contains_iff, hrecords.mem_exclude, hrecords.mem_domains]
  constructor
  · rintro ⟨hdecl, hexcluded, hnamed⟩
    exact ⟨_, Std.TreeMap.getElem?_eq_some_getD (hdeclared.2 hdecl),
      hcontains.2 ⟨hexcluded, hnamed⟩⟩
  · rintro ⟨scope, hget, hscope⟩
    have hmem : selector ∈ scopeMap entries := by
      rw [Std.TreeMap.mem_iff_isSome_getElem?, hget]
      rfl
    have hgetD : (scopeMap entries).getD selector {} = scope := by
      rw [Std.TreeMap.getD_eq_getD_getElem?, hget, Option.getD_some]
    rw [← hgetD, hcontains] at hscope
    exact ⟨hdeclared.1 hmem, hscope.1, hscope.2⟩

end HideEntry

namespace HideIndex

open HideEntry (declarations Hides scopeMap)

theorem selectorsFor_eq (h : HideIndex) (page : String) :
    h.selectorsFor page = ((declarations h.entries.toList).filter
      (·.2.contains (Domain.ofHost page))).map Prod.fst := by
  unfold selectorsFor query
  generalize h.entries.toList = entries
  induction entries with
  | nil => rfl
  | cons e entries ih =>
    have hcons : declarations (e :: entries) =
        e.selectors.map (fun selector => (selector, e.scope)) ++ declarations entries :=
      rfl
    rw [hcons, List.filter_append, List.map_append, ← ih, List.filter_cons]
    cases hpage : e.scope.contains (Domain.ofHost page) with
    | true =>
      have hall : ∀ d ∈ e.selectors.map fun selector => (selector, e.scope),
          d.2.contains (Domain.ofHost page) = true := by
        simp [hpage]
      rw [List.filter_eq_self.2 hall]
      simp [Function.comp_def]
    | false =>
      have hnone : ∀ d ∈ e.selectors.map fun selector => (selector, e.scope),
          ¬d.2.contains (Domain.ofHost page) = true := by
        simp [hpage]
      rw [List.filter_eq_nil_iff.2 hnone]
      simp

section
variable {h : HideIndex} {inserted : List HideEntry}

theorem Holds.entries_finalize (hholds : h.Holds inserted) (byScope : Bool) :
    (h.finalize byScope).entries.toList = HideEntry.mergeBySelector inserted ∨
      (h.finalize byScope).entries.toList =
        HideEntry.mergeByScope (HideEntry.mergeBySelector inserted) := by
  cases byScope with
  | true => exact .inr hholds.entries_mergeByScope
  | false =>
    have hmerged := hholds.mergeBySelector
    obtain ⟨entries, stage⟩ := h
    cases stage with
    | raw => exact .inl hmerged
    | bySelector => exact .inl hmerged
    | byScope => exact .inr hmerged

theorem Holds.mem_declarations_finalize (hholds : h.Holds inserted) (byScope : Bool)
    {selector : String} {scope : Scope} :
    (selector, scope) ∈ declarations (h.finalize byScope).entries.toList ↔
      (scopeMap inserted)[selector]? = some scope := by
  rcases hholds.entries_finalize byScope with hentries | hentries
  · rw [hentries, HideEntry.mem_declarations_mergeBySelector]
  · rw [hentries, HideEntry.mem_declarations_mergeByScope,
      HideEntry.mem_declarations_mergeBySelector]

theorem Holds.nodup_declarations_finalize (hholds : h.Holds inserted) (byScope : Bool) :
    ((declarations (h.finalize byScope).entries.toList).map Prod.fst).Nodup := by
  rcases hholds.entries_finalize byScope with hentries | hentries
  · rw [hentries]
    exact HideEntry.nodup_mergeBySelector inserted
  · rw [hentries]
    refine HideEntry.nodup_mergeByScope fun selector scope scope' hmem hmem' => ?_
    rw [HideEntry.mem_declarations_mergeBySelector] at hmem hmem'
    exact Option.some.inj (hmem.symm.trans hmem')

theorem Holds.mem_selectorsFor_iff (hholds : h.Holds inserted) (byScope : Bool) {page : String}
    {selector : String} : selector ∈ (h.finalize byScope).selectorsFor page ↔
      Hides inserted (Domain.ofHost page) selector := by
  rw [selectorsFor_eq, HideEntry.hides_iff_contains, List.mem_map]
  simp [hholds.mem_declarations_finalize]

theorem Holds.nodup_selectorsFor (hholds : h.Holds inserted) (byScope : Bool) (page : String) :
    ((h.finalize byScope).selectorsFor page).Nodup := by
  rw [selectorsFor_eq]
  exact (hholds.nodup_declarations_finalize byScope).sublist (List.filter_sublist.map Prod.fst)

end

end HideIndex

namespace RuleIndex

open HideIndex (Change insertedBy)

/-- However the entries of an index were inserted and merged, once it is finalized a page hides what
the entries say, each selector listed once, and merging by scope changes at most the order. -/
theorem selectorsFor_finalizeHides {index : RuleIndex} {changes : List Change}
    (h : index.hides = HideIndex.afterChanges {} changes) (page : String) :
    let shown := fun byScope => (index.finalizeHides byScope).hides.selectorsFor page
    (∀ byScope selector, selector ∈ shown byScope ↔
      HideEntry.Hides (insertedBy changes) (Domain.ofHost page) selector) ∧
    (∀ byScope, (shown byScope).Nodup) ∧
    (shown false).Perm (shown true) := by
  intro shown
  have hholds : index.hides.Holds (insertedBy changes) := h ▸ HideIndex.holds_afterChanges changes
  have hmem : ∀ byScope selector, selector ∈ shown byScope ↔
      HideEntry.Hides (insertedBy changes) (Domain.ofHost page) selector := fun byScope _ =>
    hholds.mem_selectorsFor_iff byScope
  have hnodup : ∀ byScope, (shown byScope).Nodup := fun byScope =>
    hholds.nodup_selectorsFor byScope page
  refine ⟨hmem, hnodup, (List.perm_ext_iff_of_nodup (hnodup false) (hnodup true)).2 ?_⟩
  intro selector
  rw [hmem, hmem]

/-- An exclusion declared for a part of a domain, merged in between with what it takes away from. -/
theorem selectorsFor_finalizeHides_shop :
    let site : HideEntry := {
      scope := { domains := .ofList [.ofHost "site.test"] }, selectors := [".ad", ".banner"] }
    let shop : HideEntry := {
      scope := { exclude := .ofList [.ofHost "shop.site.test"] }, selectors := [".ad"] }
    let index : RuleIndex := (({} : RuleIndex).addHide site).finalizeHides true |>.addHide shop
    index.hides = HideIndex.afterChanges {} [.insert site, .mergeByScope, .insert shop] ∧
      ".ad" ∈ (index.finalizeHides true).hides.selectorsFor "www.site.test" ∧
      ".ad" ∉ (index.finalizeHides true).hides.selectorsFor "shop.site.test" := by
  intro site shop index
  have hchanges : index.hides =
      HideIndex.afterChanges {} [.insert site, .mergeByScope, .insert shop] := rfl
  have hwww := (selectorsFor_finalizeHides hchanges "www.site.test").1
  have hshop := (selectorsFor_finalizeHides hchanges "shop.site.test").1
  refine ⟨hchanges, (hwww true ".ad").2 ?_, fun hmem => ?_⟩
  · exact HideEntry.hides_iff_contains.2
      ⟨site.scope.union shop.scope, by decide +kernel, by decide +kernel⟩
  · have hexcluded := ((hshop true ".ad").1 hmem).not_excluded (.ofHost "shop.site.test")
      ⟨shop.scope, by decide +kernel, DomainSet.mem_ofList.2 (List.mem_singleton_self _)⟩
    exact absurd hexcluded (by decide)

end RuleIndex

end AdFilter
