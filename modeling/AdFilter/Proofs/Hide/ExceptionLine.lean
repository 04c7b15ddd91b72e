import AdFilter.Proofs.FilterLine.HideLine
import AdFilter.Proofs.FilterLine.RuleLine
import AdFilter.Proofs.Hide.FurtherLine

/-!
# One more element-hide exception

An exception is an entry that names no domain and excludes some (`domains_of_read_exception`). It
takes its selector away from the pages that it excludes and leaves the others as they are, as long as
some line declares the selector. Where none does, the exception is the declaration, so it hides the
selector on every page that it does not exclude.
-/

namespace AdFilter

/-- All names of an exception are those of domains that it excludes. -/
theorem FilterLine.domains_of_read_exception {line : List Char} {e : HideEntry}
    (hmark : exceptionMark <:+: Text.trim line) (h : read line = .ok (.hide e)) :
    e.scope.domains = ∅ := by
  have hempty : Text.trim line ≠ [] := by
    intro hnil
    rw [read_eq_blank_iff.2 hnil] at h
    cases h
  have hcomment : isComment (Text.trim line) = false := by
    rw [← Bool.not_eq_true, ← read_eq_comment_iff, h]
    exact nofun
  obtain ⟨sides, hcut⟩ :
      ∃ sides, Text.splitOnce exceptionMark (Text.trim line) = some sides := by
    rw [← Option.ne_none_iff_exists', Ne, Text.splitOnce_eq_none_iff, not_not]
    exact hmark
  rw [read_eq hempty hcomment, splitHide, hcut] at h
  cases readHide_eq_iff.1 h with
  | entry _ _ hscope _ =>
    refine DomainSet.eq_empty_iff.2 fun d hd => ?_
    obtain ⟨_, -, hadds, -⟩ := (hscope.mem_domains d).1 hd
    cases hadds

namespace HideEntry

section
variable {entries : List HideEntry} {e : HideEntry} {page : Domain} {selector : String}

theorem hides_concat_of_not_mem (h : selector ∉ e.selectors) :
    Hides (entries ++ [e]) page selector ↔ Hides entries page selector := by
  have hunion : ∀ (part : Scope → DomainSet) (d : Domain),
      InUnion part (declarations (entries ++ [e])) selector d ↔
        InUnion part (declarations entries) selector d := by
    intro part d
    rw [inUnion_concat, or_iff_left fun hnew => h hnew.1]
  have hdeclared : (∃ declaring ∈ entries ++ [e], selector ∈ declaring.selectors) ↔
      ∃ declaring ∈ entries, selector ∈ declaring.selectors := by
    simp [or_and_right, exists_or, h]
  constructor
  · rintro ⟨hd, hx, hn⟩
    simp only [hunion] at hx hn
    exact ⟨hdeclared.1 hd, hx, hn⟩
  · rintro ⟨hd, hx, hn⟩
    simp only [← hunion] at hx hn
    exact ⟨hdeclared.2 hd, hx, hn⟩

theorem not_inUnion (h : ∀ declaring ∈ entries, selector ∉ declaring.selectors)
    {part : Scope → DomainSet} {d : Domain} : ¬InUnion part (declarations entries) selector d := by
  rintro ⟨scope, hmem, -⟩
  obtain ⟨declaring, hdeclaring, -, hselector⟩ := mem_declarations.1 hmem
  exact h declaring hdeclaring hselector

theorem hides_concat_of_mem (h : selector ∈ e.selectors) (hdomains : e.scope.domains = ∅) :
    Hides (entries ++ [e]) page selector ↔
      (Hides entries page selector ∨
        ∀ declaring ∈ entries, selector ∉ declaring.selectors) ∧
        ∀ d ∈ e.scope.exclude, d.covers page = false := by
  have hnamed : ∀ d, InUnion Scope.domains (declarations (entries ++ [e])) selector d ↔
      InUnion Scope.domains (declarations entries) selector d := by
    intro d
    rw [inUnion_concat, hdomains]
    exact or_iff_left fun hnew => DomainSet.not_mem_empty d hnew.2
  have hexcluded : ∀ d, InUnion Scope.exclude (declarations (entries ++ [e])) selector d ↔
      InUnion Scope.exclude (declarations entries) selector d ∨ d ∈ e.scope.exclude := by
    intro d
    rw [inUnion_concat, and_iff_right h]
  constructor
  · rintro ⟨-, hx, hn⟩
    simp only [hexcluded, hnamed] at hx hn
    refine ⟨?_, fun d hd => hx d (.inr hd)⟩
    by_cases hd : ∃ declaring ∈ entries, selector ∈ declaring.selectors
    · exact .inl ⟨hd, fun d hd => hx d (.inl hd), hn⟩
    · exact .inr fun declaring hmem hs => hd ⟨declaring, hmem, hs⟩
  · rintro ⟨hold, hnew⟩
    have hdeclared : ∃ declaring ∈ entries ++ [e], selector ∈ declaring.selectors :=
      ⟨e, by simp, h⟩
    rcases hold with ⟨-, hx, hn⟩ | hnone
    · refine ⟨hdeclared, fun d hd => ?_, by simpa only [hnamed] using hn⟩
      rcases (hexcluded d).1 hd with hd | hd
      · exact hx d hd
      · exact hnew d hd
    · -- nothing is declared for the selector but what the new entry excludes
      refine ⟨hdeclared, fun d hd => ?_, .inl fun d hd => not_inUnion hnone ((hnamed d).1 hd)⟩
      exact hnew d (((hexcluded d).1 hd).resolve_left (not_inUnion hnone))

end

end HideEntry

namespace FilterList

open FilterLine (exceptionMark hidesOf)

/-- A selector that is hidden on a page after an exception was hidden there before, or is declared by
the exception alone; and if it is the exception's, the page is not excluded. -/
theorem mem_selectorsOn_concat_exception_iff {lines : List (List Char)} {line : List Char}
    {e : HideEntry} (hread : FilterLine.read line = .ok (.hide e))
    (hmark : exceptionMark <:+: Text.trim line) {byScope : Bool} {page selector : String} :
    selector ∈ selectorsOn (lines ++ [line]) byScope page ↔
      (selector ∈ selectorsOn lines byScope page ∨
        selector ∈ e.selectors ∧ ∀ declaring ∈ hidesOf lines, selector ∉ declaring.selectors) ∧
      (selector ∈ e.selectors → e.scope.exclude.covers (Domain.ofHost page) = false) := by
  have hdomains := FilterLine.domains_of_read_exception hmark hread
  rw [mem_selectorsOn_iff, mem_selectorsOn_iff, FilterLine.hidesOf_concat hread]
  by_cases hselector : selector ∈ e.selectors
  · have hcovers : e.scope.exclude.covers (Domain.ofHost page) = false ↔
        ∀ d ∈ e.scope.exclude, d.covers (Domain.ofHost page) = false := by
      rw [← Bool.not_eq_true, DomainSet.covers_iff]
      simp
    rw [HideEntry.hides_concat_of_mem hselector hdomains, hcovers]
    simp only [hselector, true_and, forall_const]
  · rw [HideEntry.hides_concat_of_not_mem hselector]
    simp [hselector]

/-- An exception below a domain that hides the selector, for a page inside of it and one outside. -/
theorem mem_selectorsOn_concat_exception_iff_shop :
    ∃ e, FilterLine.read "shop.a.test#@#.ad".toList = .ok (.hide e) ∧
      exceptionMark <:+: Text.trim "shop.a.test#@#.ad".toList ∧
      ".ad" ∈ selectorsOn ["a.test##.ad".toList, "shop.a.test#@#.ad".toList] true "www.a.test" ∧
      ".ad" ∉ selectorsOn ["a.test##.ad".toList, "shop.a.test#@#.ad".toList] true "shop.a.test" := by
  have hread : FilterLine.read "shop.a.test#@#.ad".toList = .ok (.hide
      { scope := { exclude := .ofList [.ofHost "shop.a.test"] }, selectors := [".ad"] }) := by
    rfl
  have hmark : exceptionMark <:+: Text.trim "shop.a.test#@#.ad".toList :=
    ⟨"shop.a.test".toList, ".ad".toList, by decide⟩
  have hbefore : ".ad" ∈ selectorsOn ["a.test##.ad".toList] true "www.a.test" := by
    decide +kernel
  refine ⟨_, hread, hmark, ?_, fun hshop => ?_⟩
  · exact (mem_selectorsOn_concat_exception_iff hread hmark).2 ⟨.inl hbefore, fun _ => by decide⟩
  · have hshop : ".ad" ∈ selectorsOn (["a.test##.ad".toList] ++ ["shop.a.test#@#.ad".toList]) true
        "shop.a.test" := hshop
    have hinside := ((mem_selectorsOn_concat_exception_iff hread hmark).1 hshop).2 (by decide)
    exact absurd hinside (by decide)

/-- An exception for a selector that no line declares hides it on the other pages. -/
theorem not_forall_mem_selectorsOn_of_exception :
    ¬∀ (lines : List (List Char)) (line : List Char) (e : HideEntry) (byScope : Bool)
      (page selector : String), FilterLine.read line = .ok (.hide e) →
      exceptionMark <:+: Text.trim line →
      selector ∈ selectorsOn (lines ++ [line]) byScope page →
      selector ∈ selectorsOn lines byScope page := by
  intro h
  have hread : FilterLine.read "a.test#@#.ad".toList = .ok (.hide
      { scope := { exclude := .ofList [.ofHost "a.test"] }, selectors := [".ad"] }) := by
    rfl
  have hmark : exceptionMark <:+: Text.trim "a.test#@#.ad".toList :=
    ⟨"a.test".toList, ".ad".toList, by decide⟩
  have hafter : ".ad" ∈ selectorsOn ([] ++ ["a.test#@#.ad".toList]) true "b.test" := by
    decide +kernel
  have hbefore : ".ad" ∉ selectorsOn [] true "b.test" := by
    decide +kernel
  exact hbefore (h _ _ _ _ _ _ hread hmark hafter)

end FilterList

end AdFilter
