import AdFilter.Proofs.Engine.Create
import AdFilter.Proofs.FilterLine
import AdFilter.Proofs.FilterList
import AdFilter.Proofs.Glob.Keyword

/-!
# Pruning by keyword

An engine looks only at the rules whose keyword occurs in the address. No rule that it leaves out
would have matched, as long as the case of letters matters to the patterns: then the verdict is of the
kind that a look at every rule gives (`Verdict.scan`).
-/

namespace AdFilter

/-- The verdict of some rules when every one of them is looked at. -/
def Verdict.scan (rules : List Rule) (mode : ConstraintMode) (source request : String) : Verdict :=
  match rules.find? fun r => !r.isException && r.isMatch mode source request with
  | none => .allowed
  | some blocking =>
    match rules.find? fun r => r.isException && r.isMatch mode source request with
    | none => .blocked (some blocking)
    | some exception => .excepted exception

/-- The keyword of a rule occurs in every address that its pattern matches, but for case if the
pattern is an expression that leaves case out. -/
theorem FilterLine.exists_factor_of_read {line : List Char} {r : Rule} {request : String}
    (hread : read line = .ok (.rule r)) (h : r.pattern.isMatch request = true) :
    ∃ factor, factor <:+: request.toList ∧
      factor.map Text.fold = r.keyword.toList.map Text.fold ∧
      (r.pattern.isLiteral = true ∨ r.matchCase = true → factor = r.keyword.toList) := by
  obtain ⟨-, -, -, hrule⟩ := read_eq_rule_iff.1 hread
  obtain ⟨-, -, -, options, -, rfl⟩ := readRule_eq_ok_iff.1 hrule
  simp only [ruleOf] at h ⊢
  exact Pattern.exists_factor_of_isMatch h

theorem FilterLine.isLive_iff_isMatch {lines : List (List Char)} {r : Rule}
    (hr : r ∈ rulesOf lines) (hcase : r.pattern.isLiteral = false → r.matchCase = true)
    {mode : ConstraintMode} {source request : String} :
    r.IsLive mode source request ↔ r.isMatch mode source request = true := by
  rw [Rule.isLive_iff, and_iff_right_iff_imp]
  intro hmatch
  obtain ⟨line, -, hread⟩ := mem_rulesOf.1 hr
  have hpattern : r.pattern.isMatch request = true := by
    unfold Rule.isMatch at hmatch
    rw [Bool.and_eq_true, Bool.and_eq_true] at hmatch
    exact hmatch.1.2
  obtain ⟨factor, hfactor, -, heq⟩ := exists_factor_of_read hread hpattern
  have hsame : r.pattern.isLiteral = true ∨ r.matchCase = true := by
    cases hliteral : r.pattern.isLiteral with
    | true => exact .inl rfl
    | false => exact .inr (hcase hliteral)
  rwa [heq hsame] at hfactor

theorem Verdict.word_scan {rules : List Rule} {mode : ConstraintMode} {source request : String} :
    (scan rules mode source request).word =
      if ∃ r ∈ rules, r.isException = false ∧ r.isMatch mode source request = true then
        if ∃ r ∈ rules, r.isException = true ∧ r.isMatch mode source request = true then "excepted"
        else "blocked"
      else "allowed" := by
  unfold scan
  cases hb : rules.find? fun r => !r.isException && r.isMatch mode source request with
  | none =>
    rw [if_neg (by simpa using hb)]
    rfl
  | some b =>
    have hblock := List.find?_some hb
    rw [if_pos ⟨b, List.mem_of_find?_eq_some hb, by simpa using hblock⟩]
    cases hx : rules.find? fun r => r.isException && r.isMatch mode source request with
    | none =>
      rw [if_neg (by simpa using hx)]
      rfl
    | some x =>
      have hexception := List.find?_some hx
      rw [if_pos ⟨x, List.mem_of_find?_eq_some hx, by simpa using hexception⟩]
      rfl

/-- If the rules that match are those that are live, leaving rules out does not change the kind of the
verdict. -/
theorem RuleIndex.Holds.word_evaluate {index : RuleIndex} {rules : List Rule}
    (h : Holds index rules) {mode : ConstraintMode} {source request : String}
    (hlive : ∀ r ∈ rules, r.IsLive mode source request ↔ r.isMatch mode source request = true) :
    (index.evaluate mode source request).word = (Verdict.scan rules mode source request).word := by
  have hkind : ∀ kind, (∃ r ∈ rules, r.isException = kind ∧ r.IsLive mode source request) ↔
      ∃ r ∈ rules, r.isException = kind ∧ r.isMatch mode source request = true := fun kind =>
    exists_congr fun r => and_congr_right fun hr => and_congr_right fun _ => hlive r hr
  rw [h.word_eq, Verdict.word_scan]
  simp only [hkind]

namespace Engine

open FilterList

/-- Keywords occur where patterns match. So where case matters to every expression of a list, a look at
some of its rules gives the kind of verdict that a look at all of them gives. -/
theorem pruning_loses_no_match :
    (∀ (line : List Char) (r : Rule) (request : String),
      FilterLine.read line = .ok (.rule r) → r.pattern.isMatch request = true →
        (r.pattern.isLiteral = true ∨ r.matchCase = true →
          r.keyword.toList <:+: request.toList) ∧
        (r.pattern.isLiteral = false ∧ r.matchCase = false →
          ∃ factor, factor <:+: request.toList ∧
            factor.map Text.fold = r.keyword.toList.map Text.fold)) ∧
    ∀ (lines : List (List Char)) (config : Config) (engine : Engine),
      create (Loading.lines { index := {} } lines).index config = .ok engine →
      (∀ r ∈ FilterLine.rulesOf lines, r.pattern.isLiteral = false → r.matchCase = true) →
        ∀ source request : String, (engine.evaluate source request).word =
          (Verdict.scan (FilterLine.rulesOf lines) config.constraintMode source request).word := by
  constructor
  · intro line r request hread hmatch
    obtain ⟨factor, hfactor, hfold, heq⟩ := FilterLine.exists_factor_of_read hread hmatch
    refine ⟨fun hsame => ?_, fun _ => ⟨factor, hfactor, hfold⟩⟩
    rwa [heq hsame] at hfactor
  · intro lines config engine hcreate hcase source request
    rw [evaluate_of_create hcreate]
    exact (Loading.holds_lines lines).word_evaluate fun r hr =>
      FilterLine.isLive_iff_isMatch hr (hcase r hr)

/-- Where case matters, the engine looks at the rule that matches. Where it does not, the keyword may
stand in the address in other letters. -/
theorem pruning_loses_no_match_banner :
    (∃ engine, create (Loading.lines { index := {} } ["/Banner/*$match-case".toList]).index {} =
        .ok engine ∧
      (engine.evaluate "site.test" "http://x.test/Banner/1").word = "blocked") ∧
    ∃ r, FilterLine.read "/banner/*".toList = .ok (.rule r) ∧
      r.pattern.isMatch "http://x.test/BANNER/1" = true ∧ r.keyword = "banner" ∧
      ∃ factor, factor <:+: "http://x.test/BANNER/1".toList ∧
        factor.map Text.fold = "banner".toList.map Text.fold := by
  constructor
  · obtain ⟨engine, hengine⟩ := exists_create (Loading.lines { index := {} }
      ["/Banner/*$match-case".toList]).index {} (by decide)
    refine ⟨engine, hengine, ?_⟩
    rw [pruning_loses_no_match.2 ["/Banner/*$match-case".toList] {} engine hengine
      (by decide +kernel)]
    decide +kernel
  · have hrule : FilterLine.ruleOf "/banner/*".toList "/banner/*" {} ∈
        FilterLine.rulesOf ["/banner/*".toList] := by
      decide +kernel
    obtain ⟨line, hline, hread⟩ := FilterLine.mem_rulesOf.1 hrule
    obtain rfl := List.mem_singleton.1 hline
    have hkeyword : (FilterLine.ruleOf "/banner/*".toList "/banner/*" {}).keyword = "banner" := by
      decide +kernel
    have hmatch : (FilterLine.ruleOf "/banner/*".toList "/banner/*" {}).pattern.isMatch
        "http://x.test/BANNER/1" = true := by
      decide +kernel
    have hfactor := (pruning_loses_no_match.1 _ _ _ hread hmatch).2 (by decide +kernel)
    rw [hkeyword] at hfactor
    exact ⟨_, hread, hmatch, hkeyword, hfactor⟩

end Engine

end AdFilter
