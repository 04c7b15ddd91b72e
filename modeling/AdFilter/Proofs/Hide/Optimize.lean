import AdFilter.Proofs.Hide.Index
import AdFilter.Proofs.Hide.NormalForm
import AdFilter.Proofs.Text.ByteOrder
import AdFilter.RuleIndex
import Mathlib.Data.Finset.Card
import Mathlib.Data.List.Flatten

/-!
# What optimizing an index gives

`scopeOf` is the union of all scopes that a selector is declared with. The first pass makes one
entry of each selector with this scope (`mem_mergeBySelector`), and the second one groups the
selectors by it (`IsMergeOf`), so the two counts are those of the selectors and of their scopes. An
index that is merged by scope is left as it is by all that comes after.
-/

namespace AdFilter

namespace HideEntry

def selectorsOf (entries : List HideEntry) : List String :=
  entries.flatMap (·.selectors)

/-- The union of the scopes that a selector is declared with. -/
def scopeOf (entries : List HideEntry) (selector : String) : Scope :=
  ((entries.filter (selector ∈ ·.selectors)).map (·.scope)).foldl Scope.union {}

/-- The entries are those of some others, one for each scope that a selector has in all. -/
structure IsMergeOf (merged entries : List HideEntry) : Prop where
  ascending : merged.Pairwise fun a b => compare a.scope b.scope = .lt
  mem_scopes : ∀ scope, scope ∈ merged.map (·.scope) ↔
    ∃ selector ∈ selectorsOf entries, scopeOf entries selector = scope
  mem_selectors : ∀ e ∈ merged, ∀ selector, selector ∈ e.selectors ↔
    selector ∈ selectorsOf entries ∧ scopeOf entries selector = e.scope
  /-- the selectors of an entry ascend byte by byte -/
  ordered : ∀ e ∈ merged, e.selectors.Pairwise fun a b => Text.utf8 a.toList < Text.utf8 b.toList
  once : ∀ selector ∈ selectorsOf entries, ∃! e, e ∈ merged ∧ selector ∈ e.selectors

section
variable {entries : List HideEntry} {selector : String}

theorem mem_selectorsOf : selector ∈ selectorsOf entries ↔
    ∃ scope, (selector, scope) ∈ declarations entries := by
  simp only [selectorsOf, List.mem_flatMap, mem_declarations]
  constructor
  · rintro ⟨e, he, hselector⟩
    exact ⟨e.scope, e, he, rfl, hselector⟩
  · rintro ⟨_, e, he, -, hselector⟩
    exact ⟨e, he, hselector⟩

/-! ## The first pass -/

section
variable {part : Scope → DomainSet} {d : Domain}

theorem mem_foldl_union (hunion : ∀ a b : Scope, part (a.union b) = (part a).union (part b))
    {scopes : List Scope} {start : Scope} :
    d ∈ part (scopes.foldl Scope.union start) ↔
      d ∈ part start ∨ ∃ scope ∈ scopes, d ∈ part scope := by
  induction scopes generalizing start with
  | nil => simp
  | cons scope scopes ih =>
    rw [List.foldl_cons, ih, hunion, DomainSet.mem_union, or_assoc]
    simp

theorem mem_scopeOf (hunion : ∀ a b : Scope, part (a.union b) = (part a).union (part b))
    (hempty : part {} = ∅) :
    d ∈ part (scopeOf entries selector) ↔ InUnion part (declarations entries) selector d := by
  rw [scopeOf, mem_foldl_union hunion, hempty, or_iff_right (DomainSet.not_mem_empty d)]
  simp only [List.mem_map, List.mem_filter, decide_eq_true_eq, InUnion, mem_declarations]
  constructor
  · rintro ⟨_, ⟨e, ⟨he, hselector⟩, rfl⟩, hd⟩
    exact ⟨e.scope, ⟨e, he, rfl, hselector⟩, hd⟩
  · rintro ⟨_, ⟨e, he, rfl, hselector⟩, hd⟩
    exact ⟨e.scope, ⟨e, ⟨he, hselector⟩, rfl⟩, hd⟩

end

theorem getElem?_scopeMap {scope : Scope} : (scopeMap entries)[selector]? = some scope ↔
    selector ∈ selectorsOf entries ∧ scopeOf entries selector = scope := by
  have hrecords := records_scopeMap entries
  have hscope : (scopeMap entries).getD selector {} = scopeOf entries selector := by
    apply Scope.ext
    · apply DomainSet.ext_mem
      intro d
      rw [hrecords.mem_domains, mem_scopeOf (fun _ _ => rfl) rfl]
    · apply DomainSet.ext_mem
      intro d
      rw [hrecords.mem_exclude, mem_scopeOf (fun _ _ => rfl) rfl]
  rw [mem_selectorsOf, ← hrecords.mem_iff, ← hscope, Std.TreeMap.mem_iff_isSome_getElem?,
    Std.TreeMap.getD_eq_getD_getElem?]
  cases (scopeMap entries)[selector]? with
  | none => simp
  | some found => simp

theorem mem_mergeBySelector {e : HideEntry} : e ∈ mergeBySelector entries ↔
    ∃ selector ∈ selectorsOf entries,
      e = { scope := scopeOf entries selector, selectors := [selector] } := by
  simp only [mergeBySelector, List.mem_map, Prod.exists,
    Std.TreeMap.mem_toList_iff_getElem?_eq_some, getElem?_scopeMap]
  constructor
  · rintro ⟨selector, _, ⟨hselector, rfl⟩, rfl⟩
    exact ⟨selector, hselector, rfl⟩
  · rintro ⟨selector, hselector, rfl⟩
    exact ⟨selector, _, ⟨hselector, rfl⟩, rfl⟩

theorem selectorsOf_mergeBySelector (entries : List HideEntry) :
    selectorsOf (mergeBySelector entries) = (scopeMap entries).keys := by
  rw [selectorsOf, ← map_fst_declarations, declarations_mergeBySelector,
    Std.TreeMap.map_fst_toList_eq_keys]

theorem length_mergeBySelector (entries : List HideEntry) :
    (mergeBySelector entries).length = (selectorsOf entries).toFinset.card := by
  have hlength : (mergeBySelector entries).length = (scopeMap entries).keys.length := by
    rw [mergeBySelector, List.length_map, Std.TreeMap.length_toList, Std.TreeMap.length_keys]
  rw [hlength, ← List.toFinset_card_of_nodup Std.TreeMap.nodup_keys]
  congr 1
  ext selector
  rw [List.mem_toFinset, List.mem_toFinset, Std.TreeMap.mem_keys,
    (records_scopeMap entries).mem_iff, mem_selectorsOf]

/-! ## The second pass -/

theorem mem_selectorsWith {scope : Scope} :
    selector ∈ selectorsWith entries scope ↔ (selector, scope) ∈ declarations entries := by
  rw [selectorsWith, mem_foldl_appendNew, mem_declarations]
  simp [List.mem_filter, and_assoc]

theorem mem_map_scope_mergeByScope {scope : Scope} :
    scope ∈ (mergeByScope entries).map (·.scope) ↔ scope ∈ entries.map (·.scope) := by
  constructor
  · intro h
    obtain ⟨e, he, rfl⟩ := List.mem_map.1 h
    exact (mem_mergeByScope.1 he).1
  · intro h
    have hmem : { scope, selectors := selectorsWith entries scope } ∈ mergeByScope entries :=
      mem_mergeByScope.2 ⟨h, rfl⟩
    exact List.mem_map_of_mem hmem

theorem selectorsWith_sublist (h : (selectorsOf entries).Nodup) (scope : Scope) :
    (selectorsWith entries scope).Sublist (selectorsOf entries) := by
  have hsub : ((entries.filter (·.scope = scope)).flatMap (·.selectors)).Sublist
      (selectorsOf entries) :=
    List.filter_sublist.flatMap _
  rw [selectorsWith, foldl_appendNew_of_nodup (by simpa using h.sublist hsub), List.nil_append]
  exact hsub

theorem IsNormal.eq_of_scope_eq (h : IsNormal entries) {a b : HideEntry} (ha : a ∈ entries)
    (hb : b ∈ entries) (hscope : a.scope = b.scope) : a = b := by
  have hmem : a ∈ entries.filter (·.scope = b.scope) :=
    List.mem_filter.2 ⟨ha, decide_eq_true hscope⟩
  rw [filter_scope_eq_singleton h.distinct hb] at hmem
  exact List.mem_singleton.1 hmem

/-- Merged by selector and then by scope, any entries are grouped by the scopes of their
selectors. -/
theorem isMergeOf_mergeByScope (entries : List HideEntry) :
    IsMergeOf (mergeByScope (mergeBySelector entries)) entries := by
  have hnormal := isNormal_mergeByScope (mergeBySelector entries)
  have hscopes : ∀ scope, scope ∈ (mergeByScope (mergeBySelector entries)).map (·.scope) ↔
      ∃ selector ∈ selectorsOf entries, scopeOf entries selector = scope := by
    intro scope
    rw [mem_map_scope_mergeByScope, List.mem_map]
    simp only [mem_mergeBySelector]
    constructor
    · rintro ⟨_, ⟨selector, hselector, rfl⟩, rfl⟩
      exact ⟨selector, hselector, rfl⟩
    · rintro ⟨selector, hselector, rfl⟩
      exact ⟨_, ⟨selector, hselector, rfl⟩, rfl⟩
  have hselectors : ∀ e ∈ mergeByScope (mergeBySelector entries), ∀ selector,
      selector ∈ e.selectors ↔
        selector ∈ selectorsOf entries ∧ scopeOf entries selector = e.scope := by
    intro e he selector
    rw [(mem_mergeByScope.1 he).2, mem_selectorsWith, mem_declarations_mergeBySelector,
      getElem?_scopeMap]
  refine ⟨hnormal.ascending, hscopes, hselectors, ?_, ?_⟩
  · intro e he
    have hkeys := selectorsOf_mergeBySelector entries
    have hsub := selectorsWith_sublist (hkeys ▸ Std.TreeMap.nodup_keys) e.scope
    rw [(mem_mergeByScope.1 he).2]
    refine ((hkeys ▸ Std.TreeMap.ordered_keys).sublist hsub).imp ?_
    exact Text.compare_eq_lt_iff.1
  · intro selector hselector
    obtain ⟨e, he, hscope⟩ := List.mem_map.1 ((hscopes _).2 ⟨selector, hselector, rfl⟩)
    refine ⟨e, ⟨he, (hselectors e he selector).2 ⟨hselector, hscope.symm⟩⟩, ?_⟩
    rintro other ⟨hother, hmem⟩
    refine hnormal.eq_of_scope_eq hother he ?_
    rw [hscope, ((hselectors other hother selector).1 hmem).2]

theorem IsMergeOf.length_eq {merged : List HideEntry} (h : IsMergeOf merged entries) :
    merged.length = ((selectorsOf entries).toFinset.image (scopeOf entries)).card := by
  have hnodup : (merged.map (·.scope)).Nodup :=
    List.pairwise_map.2 (pairwise_scope_ne h.ascending)
  rw [← List.length_map (f := HideEntry.scope), ← List.toFinset_card_of_nodup hnodup]
  congr 1
  ext scope
  rw [List.mem_toFinset, h.mem_scopes, Finset.mem_image]
  simp only [List.mem_toFinset]

end

end HideEntry

namespace HideIndex

/-! ## The index -/

section
variable {h : HideIndex}

/-- Merged by selector, an index has one entry for each selector, also where some entries were
merged before others came. -/
theorem Holds.entries_mergeBySelector {inserted : List HideEntry} (hholds : h.Holds inserted)
    (hstage : h.stage ≠ .byScope) :
    h.mergeBySelector.entries.toList = HideEntry.mergeBySelector h.entries.toList := by
  obtain ⟨entries, stage⟩ := h
  cases stage with
  | raw => rfl
  | bySelector =>
    have hentries : entries.toList = HideEntry.mergeBySelector inserted := hholds
    show entries.toList = HideEntry.mergeBySelector entries.toList
    rw [hentries, HideEntry.mergeBySelector_mergeBySelector]
  | byScope => exact absurd rfl hstage

theorem entries_mergeByScope (hstage : h.stage ≠ .byScope) :
    h.mergeByScope.entries.toList = HideEntry.mergeByScope h.mergeBySelector.entries.toList := by
  obtain ⟨entries, stage⟩ := h
  cases stage with
  | raw | bySelector => rfl
  | byScope => exact absurd rfl hstage

theorem mergeByScope_mergeBySelector (h : HideIndex) :
    h.mergeBySelector.mergeByScope = h.mergeByScope := by
  obtain ⟨entries, stage⟩ := h
  cases stage <;> rfl

theorem mergeBySelector_of_byScope (hstage : h.stage = .byScope) : h.mergeBySelector = h := by
  unfold HideIndex.mergeBySelector
  rw [hstage]

theorem mergeByScope_of_byScope (hstage : h.stage = .byScope) : h.mergeByScope = h := by
  unfold HideIndex.mergeByScope
  rw [hstage]

theorem finalize_of_byScope (hstage : h.stage = .byScope) (byScope : Bool) :
    h.finalize byScope = h := by
  cases byScope with
  | false => exact mergeBySelector_of_byScope hstage
  | true => exact mergeByScope_of_byScope hstage

theorem optimize_of_byScope (hstage : h.stage = .byScope) :
    h.optimize = ({ before := h.size, after := h.size }, h) := by
  unfold HideIndex.optimize
  dsimp only
  rw [mergeBySelector_of_byScope hstage, mergeByScope_of_byScope hstage]

end

end HideIndex

namespace RuleIndex

open HideEntry (selectorsOf scopeOf IsMergeOf)
open HideIndex (Change)

/-- Optimizing an index groups the selectors of its entries by their scopes, and counts the
selectors and the scopes. What is not an element-hide entry stays as it is, and whatever merges the
index once more changes nothing. -/
theorem optimize_isMergeOf {index : RuleIndex} {changes : List Change}
    (h : index.hides = HideIndex.afterChanges {} changes) (hstage : index.hides.stage ≠ .byScope) :
    let entries := index.hides.entries.toList
    let selectors := (selectorsOf entries).toFinset
    let counts := index.optimize.1
    let merged := index.optimize.2
    counts.before = selectors.card ∧
    counts.after = (selectors.image (scopeOf entries)).card ∧
    counts.after ≤ counts.before ∧
    IsMergeOf merged.hides.entries.toList entries ∧
    merged.block = index.block ∧ merged.exception = index.exception ∧
    merged.optimize = ({ before := counts.after, after := counts.after }, merged) ∧
    ∀ byScope, merged.finalizeHides byScope = merged := by
  intro entries selectors counts merged
  have hholds : index.hides.Holds (HideIndex.insertedBy changes) :=
    h ▸ HideIndex.holds_afterChanges changes
  have hselected := hholds.entries_mergeBySelector hstage
  have hmerged : merged.hides = index.hides.mergeByScope :=
    HideIndex.mergeByScope_mergeBySelector index.hides
  have hmergeOf : IsMergeOf merged.hides.entries.toList entries := by
    rw [hmerged, HideIndex.entries_mergeByScope hstage, hselected]
    exact HideEntry.isMergeOf_mergeByScope entries
  have hbefore : counts.before = selectors.card := by
    show index.hides.mergeBySelector.entries.size = _
    rw [← Array.length_toList, hselected, HideEntry.length_mergeBySelector]
  have hafter : counts.after = (selectors.image (scopeOf entries)).card := by
    show merged.hides.entries.size = _
    rw [← Array.length_toList, hmergeOf.length_eq]
  have hbyScope : merged.hides.stage = .byScope := by
    rw [hmerged, HideIndex.stage_mergeByScope]
  refine ⟨hbefore, hafter, ?_, hmergeOf, rfl, rfl, ?_, fun byScope => ?_⟩
  · rw [hbefore, hafter]
    exact Finset.card_image_le
  · show ((merged.hides.optimize).1, { merged with hides := merged.hides.optimize.2 }) = _
    rw [HideIndex.optimize_of_byScope hbyScope]
    rfl
  · show { merged with hides := merged.hides.finalize byScope } = merged
    rw [HideIndex.finalize_of_byScope hbyScope]

/-- A selector that is declared once more between two merges moves to the scope of another one. -/
theorem optimize_isMergeOf_moved :
    let scope : Scope := { domains := .ofList [.ofHost "a.test"] }
    let wider : Scope := { domains := .ofList [.ofHost "a.test", .ofHost "b.test"] }
    let changes : List Change := [.insert { scope, selectors := [".ad", ".box"] },
      .insert { scope := wider, selectors := [".pop"] }, .mergeBySelector,
      .insert { scope := wider, selectors := [".box"] }]
    let index : RuleIndex := { hides := HideIndex.afterChanges {} changes }
    index.hides.stage ≠ .byScope ∧ index.optimize.1 = { before := 3, after := 2 } := by
  intro scope wider changes index
  have hstage : index.hides.stage ≠ .byScope := by decide +kernel
  obtain ⟨hbefore, hafter, -⟩ := @optimize_isMergeOf index changes rfl hstage
  have hcards : (selectorsOf index.hides.entries.toList).toFinset.card = 3 ∧
      ((selectorsOf index.hides.entries.toList).toFinset.image
        (scopeOf index.hides.entries.toList)).card = 2 := by
    decide +kernel
  refine ⟨hstage, ?_⟩
  rw [hcards.1] at hbefore
  rw [hcards.2] at hafter
  cases hcounts : index.optimize.1
  rw [hcounts] at hbefore hafter
  rw [← hbefore, ← hafter]

end RuleIndex

end AdFilter
