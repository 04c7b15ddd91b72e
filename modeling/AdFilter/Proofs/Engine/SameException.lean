import AdFilter.Proofs.Engine.Create
import AdFilter.Proofs.FilterLine.RuleLine
import AdFilter.Proofs.FilterList

/-!
# A line as an exception

The mark of an exception changes nothing else about a line: behind it, the line of a blocking rule
gives the exception with the same pattern, keyword and conditions (`read_exceptionLine`). The two are
live for the same requests, so where both are loaded, the rule never blocks a request.
-/

namespace AdFilter

/-- The rule as an exception, as it is written behind the mark. -/
def Rule.asException (r : Rule) : Rule :=
  { r with text := "@@" ++ r.text, isException := true }

namespace FilterLine

open Text (IsTrimmed)

/-- The line behind the mark of an exception. -/
def exceptionLine (line : List Char) : List Char :=
  '@' :: '@' :: line

section
variable {line : List Char} {r : Rule}

theorem splitHide_exceptionLine (h : splitHide line = none) :
    splitHide (exceptionLine line) = none := by
  have hmarks : ∀ mark : List Char, mark.head? = some '#' → ¬mark <:+: line →
      ¬mark <:+: exceptionLine line := by
    intro mark hmark hline hlong
    obtain ⟨rest, rfl⟩ := List.head?_eq_some_iff.1 hmark
    simp [exceptionLine, List.infix_cons_iff, hline] at hlong
  rw [splitHide_eq_none_iff] at h ⊢
  exact ⟨hmarks _ rfl h.1, hmarks _ rfl h.2⟩

theorem readRule_exceptionLine (hat : ¬['@', '@'] <+: line) (h : readRule line = .ok r) :
    r.isException = false ∧ readRule (exceptionLine line) = .ok r.asException := by
  have hbody : splitException line = (false, line) := isBody_iff.1 (.plain hat)
  have hbody' : splitException (exceptionLine line) = (true, line) := rfl
  have htext : "@@" ++ String.ofList line = String.ofList (exceptionLine line) := by
    rw [← String.toList_inj]
    simp [exceptionLine]
  have hparts := readRule_eq_ok_iff.1 h
  rw [hbody] at hparts
  obtain ⟨hempty, hplain, hlarge, options, hoptions, rfl⟩ := hparts
  refine ⟨by rw [ruleOf, hbody], readRule_eq_ok_iff.2 ?_⟩
  rw [hbody']
  refine ⟨hempty, hplain, hlarge, options, hoptions, ?_⟩
  rw [Rule.asException, ruleOf, ruleOf, hbody', htext]

/-- Behind the mark of an exception, the line of a rule gives the rule as an exception. -/
theorem read_exceptionLine (htrimmed : IsTrimmed line) (hat : ¬['@', '@'] <+: line)
    (h : read line = .ok (.rule r)) :
    r.isException = false ∧ read (exceptionLine line) = .ok (.rule r.asException) := by
  rw [read_eq_rule_iff, htrimmed.trim_eq] at h
  obtain ⟨hempty, -, hhide, hrule⟩ := h
  have htrimmed' : IsTrimmed (exceptionLine line) :=
    IsTrimmed.append (s := ['@', '@']) (by decide) htrimmed (by simp) hempty []
  obtain ⟨hblocking, hrule'⟩ := readRule_exceptionLine hat hrule
  refine ⟨hblocking, ?_⟩
  rw [read_eq_rule_iff, htrimmed'.trim_eq]
  exact ⟨nofun, rfl, splitHide_exceptionLine hhide, hrule'⟩

end

end FilterLine

namespace RuleIndex

/-- With both a rule and the rule as an exception, the rule is no candidate that blocks. -/
theorem Holds.exists_excepted_of_asException {index : RuleIndex} {rules : List Rule}
    (h : Holds index rules) {r : Rule} (hblocking : r.isException = false) (hr : r ∈ rules)
    (hx : r.asException ∈ rules) {mode : ConstraintMode} {source request : String}
    (hcandidate : r ∈ index.block.candidates request)
    (hmatch : r.isMatch mode source request = true) :
    ∃ x, index.evaluate mode source request = .excepted x := by
  have hlive : r.IsLive mode source request :=
    Rule.isLive_iff.2 ⟨(h.block.mem_candidates_iff.1 hcandidate).2, hmatch⟩
  refine h.exists_evaluate_eq_excepted_iff.2 ⟨⟨r, ?_, hlive⟩, r.asException, ?_, hlive⟩
  · simp [hr, hblocking]
  · exact List.mem_filter.2 ⟨hx, rfl⟩

end RuleIndex

namespace Engine

open FilterLine (exceptionLine Item)

/-- The line of a rule is also the line of an exception, which excepts whatever the rule matches. -/
theorem same_line_excepts {line : List Char} (htrimmed : Text.IsTrimmed line)
    (hat : ¬['@', '@'] <+: line) {r : Rule} (hread : FilterLine.read line = .ok (.rule r)) :
    r.isException = false ∧ FilterLine.read (exceptionLine line) = .ok (.rule r.asException) ∧
      ∀ (items : List Item) (hides : HideIndex) (config : Config) (engine : Engine),
        .rule r ∈ items → .rule r.asException ∈ items →
        create { ({} : RuleIndex).addAll items with hides } config = .ok engine →
        ∀ source request : String, r ∈ engine.index.block.candidates request →
          r.isMatch config.constraintMode source request = true →
          ∃ x, engine.evaluate source request = .excepted x := by
  obtain ⟨hblocking, hexception⟩ := FilterLine.read_exceptionLine htrimmed hat hread
  refine ⟨hblocking, hexception, ?_⟩
  intro items hides config engine hr hx hcreate source request hcandidate hmatch
  have hholds := RuleIndex.Holds.empty.addAll items
  have hmem : ∀ s : Rule, .rule s ∈ items → s ∈ [] ++ items.filterMap Item.rule? :=
    fun s hs => List.mem_filterMap.2 ⟨_, hs, rfl⟩
  rw [block_of_create hcreate] at hcandidate
  rw [evaluate_of_create hcreate]
  exact hholds.exists_excepted_of_asException hblocking (hmem r hr) (hmem _ hx) hcandidate hmatch

/-- The exception is found also where other rules come before it. -/
theorem same_line_excepts_ads :
    let lines := ["@@/x$match-case", "/ads/*$~third-party", "@@/ads/*$~third-party"].map String.toList
    ∃ engine, create (({} : RuleIndex).addAll (FilterLine.itemsOf lines)) {} = .ok engine ∧
      ∃ x, engine.evaluate "http://a.test/" "http://a.test/ads/x" = .excepted x := by
  intro lines
  obtain ⟨engine, hcreate⟩ := exists_create
    (({} : RuleIndex).addAll (FilterLine.itemsOf lines)) {} (by decide)
  let r := FilterLine.ruleOf "/ads/*$~third-party".toList "/ads/*" { party := { first := true } }
  have hread : FilterLine.read "/ads/*$~third-party".toList = .ok (.rule r) := by
    decide +kernel
  obtain ⟨-, hexception, hexcepts⟩ := same_line_excepts (by decide) (by decide) hread
  have hr : .rule r ∈ FilterLine.itemsOf lines := FilterLine.mem_itemsOf.2 ⟨_, by simp [lines], hread⟩
  have hx : .rule r.asException ∈ FilterLine.itemsOf lines :=
    FilterLine.mem_itemsOf.2 ⟨_, by simp [lines, exceptionLine], hexception⟩
  have hcandidate : r ∈ engine.index.block.candidates "http://a.test/ads/x" := by
    rw [block_of_create hcreate,
      (RuleIndex.Holds.empty.addAll (FilterLine.itemsOf lines)).block.mem_candidates_iff]
    decide +kernel
  exact ⟨engine, hcreate, hexcepts _ _ _ engine hr hx hcreate _ _ hcandidate (by decide +kernel)⟩

end Engine

end AdFilter
