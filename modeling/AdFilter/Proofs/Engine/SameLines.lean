import AdFilter.Proofs.Engine.Create
import AdFilter.Proofs.FilterList
import AdFilter.Proofs.Hide.Index

/-!
# Lists with the same lines

What an engine answers depends on nothing but the set of accepted lines of its list. Their order and
repeats decide which of several live rules is named, but the kind of a verdict only asks whether there
is one (`RuleIndex.Holds.word_congr`); and merging gives the same element-hide entries, in the same
order, for every order in which they are declared (`hides_finalize_congr`).
-/

namespace AdFilter

open FilterLine (itemsOf rulesOf hidesOf)

namespace FilterList

/-- The lines of a list that give a rule or an element-hide entry, without the blanks around them. -/
def acceptedLines (text : String) : List (List Char) :=
  ((Text.lines text.toList).filter fun line => (FilterLine.read line).toOption.isSome).map Text.trim

theorem mem_itemsOf_iff_accepted {text : String} {item : FilterLine.Item} :
    item ∈ itemsOf (Text.lines text.toList) ↔
      ∃ line ∈ acceptedLines text, FilterLine.readTrimmed line = .ok item := by
  simp only [FilterLine.mem_itemsOf, acceptedLines, List.mem_map, List.mem_filter]
  constructor
  · rintro ⟨line, hline, hread⟩
    exact ⟨_, ⟨line, ⟨hline, by rw [hread]; rfl⟩, rfl⟩, hread⟩
  · rintro ⟨_, ⟨line, ⟨hline, -⟩, rfl⟩, hread⟩
    exact ⟨line, hline, hread⟩

section
variable {text text' : String} (h : ∀ line, line ∈ acceptedLines text ↔ line ∈ acceptedLines text')
include h

theorem mem_itemsOf_congr (item : FilterLine.Item) :
    item ∈ itemsOf (Text.lines text.toList) ↔ item ∈ itemsOf (Text.lines text'.toList) := by
  simp only [mem_itemsOf_iff_accepted, h]

theorem word_evaluate_congr (mode : ConstraintMode) (source request : String) :
    ((load {} text).index.evaluate mode source request).word =
      ((load {} text').index.evaluate mode source request).word := by
  refine (Loading.holds_lines _).word_congr (Loading.holds_lines _) fun r => ?_
  rw [FilterLine.mem_rulesOf_iff_item, FilterLine.mem_rulesOf_iff_item, mem_itemsOf_congr h]

theorem hides_finalize_congr (byScope : Bool) :
    (load {} text).index.hides.finalize byScope = (load {} text').index.hides.finalize byScope := by
  have hloaded : ∀ text : String, (load {} text).index.hides =
      (hidesOf (Text.lines text.toList)).foldl HideIndex.insert {} := by
    intro text
    rw [load, Loading.lines_index, RuleIndex.hides_addAll]
    rfl
  obtain ⟨hentries, hstage⟩ := HideIndex.foldl_insert {} (hidesOf (Text.lines text.toList))
  obtain ⟨hentries', hstage'⟩ := HideIndex.foldl_insert {} (hidesOf (Text.lines text'.toList))
  rw [hloaded, hloaded]
  refine HideIndex.finalize_congr (hstage rfl) (hstage' rfl) (HideEntry.SameUnions.of_mem_iff ?_) _
  rintro ⟨selector, scope⟩
  rw [hentries, hentries']
  simp [HideEntry.mem_declarations, FilterLine.mem_hidesOf_iff_item, mem_itemsOf_congr h]

end

end FilterList

namespace Engine

open FilterList

/-- Two lists with the same set of accepted lines give engines that decide alike and hide the same
selectors, in the same order. -/
theorem answers_depend_on_acceptedLines {text text' : String}
    (h : ∀ line, line ∈ acceptedLines text ↔ line ∈ acceptedLines text') (config : Config)
    (hcapacity : 0 < config.cacheCapacity) :
    ∃ engine engine', create (load {} text).index config = .ok engine ∧
      create (load {} text').index config = .ok engine' ∧
      (∀ source request : String,
        (engine.evaluate source request).word = (engine'.evaluate source request).word) ∧
      ∀ page : String, engine.hidesFor page = engine'.hidesFor page := by
  obtain ⟨engine, hcreate⟩ := exists_create (load {} text).index config hcapacity
  obtain ⟨engine', hcreate'⟩ := exists_create (load {} text').index config hcapacity
  refine ⟨engine, engine', hcreate, hcreate', fun source request => ?_, fun page => ?_⟩
  · rw [evaluate_of_create hcreate, evaluate_of_create hcreate']
    exact word_evaluate_congr h config.constraintMode source request
  · rw [hidesFor, hidesFor, hides_of_create hcreate, hides_of_create hcreate']
    rw [hides_finalize_congr h config.mergeByScope]

/-- The lines in another order, one of them twice, with blanks around them and a comment between. -/
theorem answers_depend_on_acceptedLines_shuffled :
    ∃ engine', create (load {} "##.b\r\n! note\n ##.a\n@@/ad/ok\n\n/ad*\n##.b").index {} = .ok engine' ∧
      (engine'.evaluate "site.test" "http://x.test/ad/ok").word = "excepted" ∧
      engine'.hidesFor "site.test" = [".a", ".b"] := by
  have hsame : ∀ line, line ∈ acceptedLines "/ad*\n@@/ad/ok\n##.a\n##.b" ↔
      line ∈ acceptedLines "##.b\r\n! note\n ##.a\n@@/ad/ok\n\n/ad*\n##.b" := by
    have hlines : acceptedLines "/ad*\n@@/ad/ok\n##.a\n##.b" =
        ["/ad*".toList, "@@/ad/ok".toList, "##.a".toList, "##.b".toList] := by
      decide +kernel
    have hlines' : acceptedLines "##.b\r\n! note\n ##.a\n@@/ad/ok\n\n/ad*\n##.b" =
        ["##.b".toList, "##.a".toList, "@@/ad/ok".toList, "/ad*".toList, "##.b".toList] := by
      decide +kernel
    intro line
    rw [hlines, hlines']
    simp only [List.mem_cons, List.not_mem_nil, or_false]
    grind
  obtain ⟨engine, engine', hcreate, hcreate', hword, hhides⟩ :=
    answers_depend_on_acceptedLines hsame {} (by decide)
  refine ⟨engine', hcreate', ?_, ?_⟩
  · rw [← hword, evaluate_of_create hcreate]
    decide +kernel
  · rw [← hhides, hidesFor, hides_of_create hcreate]
    decide +kernel

end Engine

end AdFilter
