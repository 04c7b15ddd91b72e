import AdFilter.Proofs.FilterList
import AdFilter.Proofs.Hide.Query

/-!
# One more element-hide line

What a page hides is known by the entries of the lines that were loaded (`mem_selectorsOn_iff`), so
the effect of a further line is told by the scope that it adds. A line that excludes nothing can
still take a selector away from a page: a selector that no line named a domain for was hidden
everywhere, and with the first domain that is named for it, it is hidden below that domain only.
-/

namespace AdFilter

theorem FilterLine.hidesOf_concat {lines : List (List Char)} {line : List Char} {e : HideEntry}
    (h : read line = .ok (.hide e)) : hidesOf (lines ++ [line]) = hidesOf lines ++ [e] := by
  simp [hidesOf, itemsOf, h, Except.toOption, Item.hide?]

namespace FilterList

open HideEntry (declarations InUnion Hides)

/-- The selectors that are hidden on a page, after some lines were loaded. -/
def selectorsOn (lines : List (List Char)) (byScope : Bool) (page : String) : List String :=
  ((Loading.lines { index := {} } lines).index.finalizeHides byScope).hides.selectorsFor page

theorem mem_selectorsOn_iff {lines : List (List Char)} {byScope : Bool} {page selector : String} :
    selector ∈ selectorsOn lines byScope page ↔
      Hides (FilterLine.hidesOf lines) (Domain.ofHost page) selector := by
  have hholds : (Loading.lines { index := {} } lines).index.hides.Holds
      (FilterLine.hidesOf lines) := by
    rw [Loading.lines_index, RuleIndex.hides_addAll]
    exact HideIndex.Holds.empty.foldl_insert (FilterLine.hidesOf lines)
  exact hholds.mem_selectorsFor_iff byScope

end FilterList

namespace HideEntry

theorem inUnion_concat {part : Scope → DomainSet} {entries : List HideEntry} {e : HideEntry}
    {selector : String} {d : Domain} :
    InUnion part (declarations (entries ++ [e])) selector d ↔
      InUnion part (declarations entries) selector d ∨
        selector ∈ e.selectors ∧ d ∈ part e.scope := by
  rw [declarations_append, inUnion_append]
  refine or_congr_right ?_
  simp only [InUnion, mem_declarations, List.mem_singleton, exists_eq_left]
  constructor
  · rintro ⟨_, ⟨rfl, hs⟩, hd⟩
    exact ⟨hs, hd⟩
  · rintro ⟨hs, hd⟩
    exact ⟨e.scope, ⟨rfl, hs⟩, hd⟩

/-- What a further entry without exclusions leaves hidden. -/
theorem Hides.concat_iff {entries : List HideEntry} {e : HideEntry} {page : Domain}
    {selector : String} (h : Hides entries page selector) (hexclude : e.scope.exclude = ∅) :
    Hides (entries ++ [e]) page selector ↔
      selector ∉ e.selectors ∨ e.scope.domains = ∅ ∨
        (∃ d, InUnion Scope.domains (declarations entries) selector d) ∨
        e.scope.domains.covers page = true := by
  have hnamed : Hides (entries ++ [e]) page selector ↔
      (∀ d, ¬InUnion Scope.domains (declarations (entries ++ [e])) selector d) ∨
        ∃ d, InUnion Scope.domains (declarations (entries ++ [e])) selector d ∧
          d.covers page = true := by
    refine ⟨Hides.named, fun hnamed => ⟨?_, fun d hd => ?_, hnamed⟩⟩
    · obtain ⟨declaring, hmem, hs⟩ := h.declared
      exact ⟨declaring, List.mem_append_left _ hmem, hs⟩
    · rcases inUnion_concat.1 hd with hold | ⟨-, hnew⟩
      · exact h.not_excluded d hold
      · rw [hexclude] at hnew
        exact absurd hnew (DomainSet.not_mem_empty d)
  rw [hnamed]
  rcases h.named with hnone | ⟨d, hd, hcovers⟩
  · -- the selector was hidden everywhere, and the domains of the further entry are all there are
    have hunion : ∀ d, InUnion Scope.domains (declarations (entries ++ [e])) selector d ↔
        selector ∈ e.selectors ∧ d ∈ e.scope.domains := fun d => by
      rw [inUnion_concat, or_iff_right (hnone d)]
    simp only [hunion]
    by_cases hselector : selector ∈ e.selectors
    · simp [hselector, hnone, DomainSet.eq_empty_iff, DomainSet.covers_iff]
    · simp [hselector]
  · exact iff_of_true (.inr ⟨d, inUnion_concat.2 (.inl hd), hcovers⟩) (.inr (.inr (.inl ⟨d, hd⟩)))

end HideEntry

namespace FilterList

open HideEntry (declarations InUnion)

/-- A line that excludes nothing leaves a selector hidden on a page, unless it is the first to name
domains for the selector, and names none that covers the page. -/
theorem mem_selectorsOn_concat_iff {lines : List (List Char)} {line : List Char} {e : HideEntry}
    (hread : FilterLine.read line = .ok (.hide e)) (hexclude : e.scope.exclude = ∅)
    {byScope : Bool} {page selector : String} (h : selector ∈ selectorsOn lines byScope page) :
    selector ∈ selectorsOn (lines ++ [line]) byScope page ↔
      selector ∉ e.selectors ∨ e.scope.domains = ∅ ∨
        (∃ d, InUnion Scope.domains (declarations (FilterLine.hidesOf lines)) selector d) ∨
        e.scope.domains.covers (Domain.ofHost page) = true := by
  rw [mem_selectorsOn_iff] at h ⊢
  rw [FilterLine.hidesOf_concat hread]
  exact h.concat_iff hexclude

/-- A selector that has a domain keeps it when a line names another. -/
theorem mem_selectorsOn_concat_iff_two_domains :
    ∃ e, FilterLine.read "b.test##.ad".toList = .ok (.hide e) ∧ e.scope.exclude = ∅ ∧
      ".ad" ∈ selectorsOn ["a.test##.ad".toList] true "a.test" ∧
      ".ad" ∈ selectorsOn ["a.test##.ad".toList, "b.test##.ad".toList] true "a.test" := by
  have hread : FilterLine.read "b.test##.ad".toList =
      .ok (.hide { scope := { domains := .ofList [.ofHost "b.test"] }, selectors := [".ad"] }) := by
    rfl
  have hshown : ".ad" ∈ selectorsOn ["a.test##.ad".toList] true "a.test" := by
    decide +kernel
  have hnamed : ∃ d, InUnion Scope.domains
      (declarations (FilterLine.hidesOf ["a.test##.ad".toList])) ".ad" d :=
    ⟨.ofHost "a.test", { domains := .ofList [.ofHost "a.test"] }, by decide +kernel,
      DomainSet.mem_ofList.2 (List.mem_singleton_self _)⟩
  exact ⟨_, hread, rfl, hshown,
    (mem_selectorsOn_concat_iff hread rfl hshown).2 (.inr (.inr (.inl hnamed)))⟩

/-- A line that names a domain takes the selector away from the pages outside of it, if the selector
was hidden everywhere. -/
theorem not_forall_mem_selectorsOn_concat :
    ¬∀ (lines : List (List Char)) (line : List Char) (e : HideEntry) (byScope : Bool)
      (page selector : String), FilterLine.read line = .ok (.hide e) → e.scope.exclude = ∅ →
      selector ∈ selectorsOn lines byScope page →
      selector ∈ selectorsOn (lines ++ [line]) byScope page := by
  intro h
  have hread : FilterLine.read "a.test##.ad".toList =
      .ok (.hide { scope := { domains := .ofList [.ofHost "a.test"] }, selectors := [".ad"] }) := by
    rfl
  have hbefore : ".ad" ∈ selectorsOn ["##.ad".toList] true "b.test" := by
    decide +kernel
  have hafter : ".ad" ∉ selectorsOn (["##.ad".toList] ++ ["a.test##.ad".toList]) true "b.test" := by
    decide +kernel
  exact hafter (h _ _ _ _ _ _ hread rfl hbefore)

end FilterList

end AdFilter
