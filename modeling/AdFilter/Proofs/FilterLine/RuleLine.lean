import AdFilter.Proofs.FilterLine
import AdFilter.Proofs.FilterLine.Options
import AdFilter.Proofs.Glob.Meaning

/-!
# What the line of a rule gives

A line without the marks of an element-hide line has the parts of a rule: a mark at its start if it
is an exception, a pattern, and the items of its options (`RuleParts.Of`). What it gives is told by
these parts alone (`RuleOutcome`): the first of the reasons against it in the order of the
constructors, or the one rule that they describe. `readRule_eq_iff` says that reading does just
that, and `read_grammar` says so of every line that holds no such mark.
-/

namespace AdFilter

theorem Pattern.isLiteral_compile {pattern : List Char} {matchCase : Bool} :
    (compile (String.ofList pattern) matchCase).isLiteral = true ↔
      '^' ∉ pattern ∧ '*' ∉ pattern ∧ '|' ∉ pattern := by
  have hspecial : pattern.any Glob.isSpecial = true ↔
      ¬('^' ∉ pattern ∧ '*' ∉ pattern ∧ '|' ∉ pattern) := by
    simp only [List.any_eq_true, Glob.isSpecial, Bool.or_eq_true, beq_iff_eq, and_or_left,
      exists_or, exists_eq_right]
    tauto
  cases hany : pattern.any Glob.isSpecial with
  | true =>
    have hspecial' : (String.ofList pattern).toList.any Glob.isSpecial = true := by
      rwa [String.toList_ofList]
    obtain ⟨regex, hregex⟩ := Glob.exists_regex? hspecial' matchCase
    rw [compile, hregex]
    exact iff_of_false nofun (hspecial.1 hany)
  | false =>
    rw [compile, Glob.regex?_eq_none (by rwa [String.toList_ofList])]
    exact iff_of_true rfl (not_not.1 (mt hspecial.2 (by simp [hany])))

namespace FilterLine

open Text (CutAt IsFields IsTrimOf)

/-! ## The parts of a rule -/

/-- Whether a line is an exception, which it is if it starts with two `@`, and what it is besides
that. -/
inductive IsBody : List Char → Bool → List Char → Prop where
  | exception {body : List Char} : IsBody ('@' :: '@' :: body) true body
  | plain {line : List Char} : ¬['@', '@'] <+: line → IsBody line false line

/-- The pattern ends, and the options start, at the first `$`. -/
inductive IsOptionsCut : List Char → List Char → List Char → Prop where
  | options {body pattern options : List Char} :
      CutAt ['$'] body pattern options → IsOptionsCut body pattern options
  | none {body : List Char} : '$' ∉ body → IsOptionsCut body body []

structure RuleParts where
  isException : Bool
  pattern : List Char
  /-- the items of the options -/
  items : List (List Char)

/-- The line consists of these parts. -/
def RuleParts.Of (parts : RuleParts) (line : List Char) : Prop :=
  ∃ body options, IsBody line parts.isException body ∧
    IsOptionsCut body parts.pattern options ∧ IsFields ',' options parts.items

/-- These patterns stand for almost every request. -/
def IsDegenerate (pattern : List Char) : Prop :=
  pattern = "|http:".toList ∨ pattern = "|http://".toList

/-- The rule that the line describes by its parts. -/
structure IsRuleOf (line : List Char) (parts : RuleParts) (r : Rule) : Prop where
  text : r.text = String.ofList line
  isException : r.isException = parts.isException
  pattern : r.pattern = Pattern.compile (String.ofList parts.pattern) r.matchCase
  isLiteral : r.pattern.isLiteral = true ↔
    '^' ∉ parts.pattern ∧ '*' ∉ parts.pattern ∧ '|' ∉ parts.pattern
  keyword : r.keyword = Glob.keyword (String.ofList parts.pattern)
  options : Options.Collects
    { matchCase := r.matchCase, party := r.party, domains := r.domains } parts.items

/-- What the line of a rule gives. -/
inductive RuleOutcome (line : List Char) (parts : RuleParts) :
    Except RejectReason Item → Prop where
  | emptyPattern : parts.pattern = [] → RuleOutcome line parts (.error .emptyPattern)
  | degeneratePattern : IsDegenerate parts.pattern →
      RuleOutcome line parts (.error .degeneratePattern)
  | offence {reason : RejectReason} : parts.pattern ≠ [] → ¬IsDegenerate parts.pattern →
      Options.FirstOffence parts.items reason → RuleOutcome line parts (.error reason)
  | tooLarge : parts.pattern ≠ [] → ¬IsDegenerate parts.pattern →
      (∀ item ∈ parts.items, ∀ reason, ¬Offends item reason) →
      Glob.isTooLarge (String.ofList parts.pattern) = true →
      RuleOutcome line parts (.error .patternTooLarge)
  | rule {r : Rule} : parts.pattern ≠ [] → ¬IsDegenerate parts.pattern →
      (∀ item ∈ parts.items, ∀ reason, ¬Offends item reason) →
      Glob.isTooLarge (String.ofList parts.pattern) = false → IsRuleOf line parts r →
      RuleOutcome line parts (.ok (.rule r))

section
variable {line body pattern options : List Char} {parts : RuleParts}

theorem isBody_iff {isException : Bool} :
    IsBody line isException body ↔ splitException line = (isException, body) := by
  constructor
  · rintro (_ | hat)
    · rfl
    · unfold splitException
      split
      · next rest => exact absurd ⟨rest, rfl⟩ hat
      · rfl
  · unfold splitException
    split
    · rintro ⟨⟩
      exact .exception
    · next hat =>
      rintro ⟨⟩
      exact .plain fun ⟨rest, hrest⟩ => hat rest hrest.symm

theorem isOptionsCut_iff :
    IsOptionsCut body pattern options ↔ splitOptions body = (pattern, options) := by
  rw [splitOptions]
  constructor
  · rintro (hcut | hdollar)
    · rw [Text.splitOnce_eq_some_iff.2 hcut]
      rfl
    · rw [Text.splitOnce_eq_none hdollar]
      rfl
  · cases hsplit : Text.splitOnce ['$'] body with
    | some cut =>
      rintro rfl
      exact .options (Text.splitOnce_eq_some_iff.1 hsplit)
    | none =>
      rintro ⟨⟩
      refine .none fun hdollar => Text.splitOnce_eq_none_iff.1 hsplit ?_
      obtain ⟨front, back, rfl⟩ := List.append_of_mem hdollar
      exact ⟨front, back, by simp⟩

/-- The mark of an exception does not reach behind a `$`. -/
theorem splitException_append (line rest : List Char) :
    splitException (line ++ '$' :: rest) =
      ((splitException line).1, (splitException line).2 ++ '$' :: rest) := by
  obtain ⟨isException, body, hbody⟩ : ∃ isException body, IsBody line isException body :=
    ⟨_, _, isBody_iff.2 rfl⟩
  rw [isBody_iff.1 hbody]
  apply isBody_iff.1
  cases hbody with
  | exception => exact .exception
  | plain hat =>
    refine .plain fun hlong => hat ?_
    match line with
    | [] => simp at hlong
    | [c] => simp at hlong
    | c :: d :: line => simpa using hlong

theorem splitOptions_append (hdollar : '$' ∉ pattern) (options : List Char) :
    splitOptions (pattern ++ '$' :: options) = (pattern, options) := by
  apply isOptionsCut_iff.1
  have hcut : CutAt ['$'] (pattern ++ ['$'] ++ options) pattern options :=
    Text.cutAt_of_not_mem hdollar options
  rw [List.append_assoc, List.singleton_append] at hcut
  exact .options hcut

theorem dollar_not_mem_splitException (hdollar : '$' ∉ line) : '$' ∉ (splitException line).2 := by
  obtain ⟨isException, body, hbody⟩ : ∃ isException body, splitException line = (isException, body) :=
    ⟨_, _, rfl⟩
  rw [hbody]
  cases isBody_iff.2 hbody with
  | exception => simpa using hdollar
  | plain => exact hdollar

theorem RuleParts.of_iff : parts.Of line ↔
    parts.isException = (splitException line).1 ∧
      parts.pattern = (splitOptions (splitException line).2).1 ∧
        parts.items = Options.items (splitOptions (splitException line).2).2 := by
  simp only [RuleParts.Of, isBody_iff, isOptionsCut_iff, Text.isFields_iff]
  constructor
  · rintro ⟨body, options, hbody, hcut, hitems⟩
    rw [hbody, hcut]
    exact ⟨rfl, rfl, hitems⟩
  · rintro ⟨hexception, hpattern, hitems⟩
    exact ⟨_, _, Prod.ext hexception.symm rfl, Prod.ext hpattern.symm rfl, hitems⟩

theorem isDegenerate_iff : IsDegenerate pattern ↔ String.ofList pattern ∈ degeneratePatterns := by
  simp [IsDegenerate, degeneratePatterns, ← String.toList_inj]

theorem IsDegenerate.ne_nil (h : IsDegenerate pattern) : pattern ≠ [] := by
  rintro rfl
  simp [IsDegenerate] at h

/-! ## Reading a rule -/

theorem isRuleOf_iff (hparts : parts.Of line) {r : Rule} :
    IsRuleOf line parts r ↔ ∃ options, Options.Collects options parts.items ∧
      r = ruleOf line (String.ofList parts.pattern) options := by
  obtain ⟨hexception, -, -⟩ := RuleParts.of_iff.1 hparts
  constructor
  · obtain ⟨text, isException, matchCase, pattern, keyword, domains, party⟩ := r
    rintro ⟨htext, hisException, hpattern, -, hkeyword, hoptions⟩
    refine ⟨_, hoptions, ?_⟩
    rw [ruleOf, ← hexception, ← htext, ← hisException, ← hpattern, ← hkeyword]
  · rintro ⟨options, hoptions, rfl⟩
    exact ⟨rfl, hexception.symm, rfl, Pattern.isLiteral_compile, rfl, hoptions⟩

/-- A pattern that is not refused leaves it to the options, and then to the size of the pattern. -/
theorem readRule_eq_bind (hparts : parts.Of line) (hnil : parts.pattern ≠ [])
    (hplain : ¬IsDegenerate parts.pattern) :
    readRule line = (parts.items.foldlM Options.addItem {}).bind fun options =>
      if Glob.isTooLarge (String.ofList parts.pattern) = true then .error .patternTooLarge
      else .ok (ruleOf line (String.ofList parts.pattern) options) := by
  obtain ⟨-, hpattern, hitems⟩ := RuleParts.of_iff.1 hparts
  rw [hpattern] at hnil hplain
  rw [readRule_eq, if_neg (mt String.ofList_eq_empty_iff.1 hnil),
    if_neg (mt isDegenerate_iff.2 hplain), hpattern, hitems]
  rfl

theorem readRule_of_emptyPattern (hparts : parts.Of line) (hnil : parts.pattern = []) :
    readRule line = .error .emptyPattern := by
  rw [(RuleParts.of_iff.1 hparts).2.1] at hnil
  rw [readRule_eq, if_pos (String.ofList_eq_empty_iff.2 hnil)]

theorem readRule_of_isDegenerate (hparts : parts.Of line) (h : IsDegenerate parts.pattern) :
    readRule line = .error .degeneratePattern := by
  rw [(RuleParts.of_iff.1 hparts).2.1] at h
  rw [readRule_eq, if_neg (mt String.ofList_eq_empty_iff.1 h.ne_nil), if_pos (isDegenerate_iff.1 h)]

theorem ruleOutcome_readRule (hparts : parts.Of line) :
    RuleOutcome line parts ((readRule line).map .rule) := by
  by_cases hnil : parts.pattern = []
  · rw [readRule_of_emptyPattern hparts hnil]
    exact .emptyPattern hnil
  by_cases hdegenerate : IsDegenerate parts.pattern
  · rw [readRule_of_isDegenerate hparts hdegenerate]
    exact .degeneratePattern hdegenerate
  rw [readRule_eq_bind hparts hnil hdegenerate]
  cases hoptions : parts.items.foldlM Options.addItem {} with
  | error reason => exact .offence hnil hdegenerate (Options.foldlM_eq_error_iff.1 hoptions)
  | ok options =>
    obtain ⟨hnone, hcollects⟩ := Options.foldlM_eq_ok_iff.1 hoptions
    cases hlarge : Glob.isTooLarge (String.ofList parts.pattern) with
    | true => exact .tooLarge hnil hdegenerate hnone hlarge
    | false =>
      exact .rule hnil hdegenerate hnone hlarge ((isRuleOf_iff hparts).2 ⟨_, hcollects, rfl⟩)

theorem RuleOutcome.map_readRule (hparts : parts.Of line) {result : Except RejectReason Item}
    (h : RuleOutcome line parts result) : (readRule line).map .rule = result := by
  cases h with
  | emptyPattern hnil =>
    rw [readRule_of_emptyPattern hparts hnil]
    rfl
  | degeneratePattern hdegenerate =>
    rw [readRule_of_isDegenerate hparts hdegenerate]
    rfl
  | offence hnil hplain hoffence =>
    rw [readRule_eq_bind hparts hnil hplain, Options.foldlM_eq_error_iff.2 hoffence]
    rfl
  | tooLarge hnil hplain hnone hlarge =>
    obtain ⟨options, hoptions⟩ := Options.exists_foldlM_eq_ok hnone
    rw [readRule_eq_bind hparts hnil hplain, hoptions, Except.bind, if_pos hlarge]
    rfl
  | rule hnil hplain hnone hlarge hr =>
    obtain ⟨options, hcollects, rfl⟩ := (isRuleOf_iff hparts).1 hr
    rw [readRule_eq_bind hparts hnil hplain, Options.foldlM_eq_ok_iff.2 ⟨hnone, hcollects⟩,
      Except.bind, if_neg (by simp [hlarge])]
    rfl

theorem readRule_eq_iff (hparts : parts.Of line) {result : Except RejectReason Item} :
    (readRule line).map .rule = result ↔ RuleOutcome line parts result :=
  ⟨fun h => h ▸ ruleOutcome_readRule hparts, fun h => h.map_readRule hparts⟩

theorem RuleParts.exists_of (line : List Char) : ∃ parts : RuleParts, parts.Of line :=
  ⟨⟨_, _, _⟩, RuleParts.of_iff.2 ⟨rfl, rfl, rfl⟩⟩

/-! ## Reading a line -/

theorem Offends.not_harmless {item : List Char} {reason : RejectReason} (h : Offends item reason) :
    reason.isHarmless = false := by
  cases h <;> rfl

theorem RuleOutcome.not_harmless {reason : RejectReason}
    (h : RuleOutcome line parts (.error reason)) : reason.isHarmless = false := by
  cases h with
  | emptyPattern | degeneratePattern | tooLarge => rfl
  | offence _ _ hoffence =>
    obtain ⟨_, _, _, _, _, hoffends⟩ := hoffence
    exact hoffends.not_harmless

theorem readHide_not_harmless {isException : Bool} {names selector : List Char}
    {reason : RejectReason} (h : readHide isException names selector = .error reason) :
    reason.isHarmless = false := by
  unfold readHide at h
  dsimp only at h
  split at h
  · cases h
    rfl
  · cases h

theorem read_not_harmless (hempty : Text.trim line ≠ [])
    (hcomment : isComment (Text.trim line) = false) {reason : RejectReason}
    (h : read line = .error reason) : reason.isHarmless = false := by
  rw [read_eq hempty hcomment] at h
  cases hsplit : splitHide (Text.trim line) with
  | none =>
    rw [hsplit] at h
    obtain ⟨parts, hparts⟩ := RuleParts.exists_of (Text.trim line)
    exact ((readRule_eq_iff hparts).1 h).not_harmless
  | some sides =>
    obtain ⟨isException, names, selector⟩ := sides
    cases hread : readHide isException names selector with
    | error reason' =>
      simp only [hsplit, hread, Except.map, Except.error.injEq] at h
      exact h ▸ readHide_not_harmless hread
    | ok e => simp [hsplit, hread, Except.map] at h

theorem read_eq_blank_iff : read line = .error .blank ↔ Text.trim line = [] := by
  by_cases hempty : Text.trim line = []
  · exact iff_of_true (by rw [read, hempty]; rfl) hempty
  · refine iff_of_false (fun h => ?_) hempty
    cases hcomment : isComment (Text.trim line) with
    | true =>
      rw [read, readTrimmed, if_neg (by simp [hempty]), if_pos hcomment] at h
      cases h
    | false => exact absurd (read_not_harmless hempty hcomment h) (by decide)

theorem read_eq_comment_iff : read line = .error .comment ↔ isComment (Text.trim line) = true := by
  by_cases hempty : Text.trim line = []
  · rw [read, hempty]
    simp [readTrimmed, isComment]
  · cases hcomment : isComment (Text.trim line) with
    | true =>
      rw [read, readTrimmed, if_neg (by simp [hempty]), if_pos hcomment]
      exact iff_of_true rfl rfl
    | false =>
      exact iff_of_false (fun h => absurd (read_not_harmless hempty hcomment h) (by decide))
        Bool.false_ne_true

end

/-- A line is blank, or a comment, or, if no mark of an element-hide line stands in it, gives what
its parts tell. -/
theorem read_grammar {line t : List Char} (ht : IsTrimOf line t) :
    (read line = .error .blank ↔ t = []) ∧
    (read line = .error .comment ↔ t.head? = some '!' ∨ t.head? = some '[') ∧
    (t ≠ [] → t.head? ≠ some '!' → t.head? ≠ some '[' →
      ¬hideMark <:+: t → ¬exceptionMark <:+: t →
      (∃ parts : RuleParts, parts.Of t) ∧
        ∀ parts : RuleParts, parts.Of t →
          ∀ result, read line = result ↔ RuleOutcome t parts result) := by
  obtain rfl := Text.trim_eq_iff.2 ht
  refine ⟨read_eq_blank_iff, read_eq_comment_iff.trans isComment_iff, ?_⟩
  intro hempty hbang hbracket hhide hexception
  refine ⟨RuleParts.exists_of _, fun parts hparts result => ?_⟩
  rw [read_eq hempty (isComment_eq_false_iff.2 ⟨hbang, hbracket⟩),
    splitHide_eq_none_iff.2 ⟨hexception, hhide⟩]
  exact readRule_eq_iff hparts

/-- The option behind a `domain` option that is well written is the first one that offends. -/
theorem read_grammar_offence :
    read " @@ads.test^$Domain=a.test, ,~Script ,domains ".toList =
      .error (.unsupportedOption "~Script") := by
  have ht : IsTrimOf " @@ads.test^$Domain=a.test, ,~Script ,domains ".toList
      "@@ads.test^$Domain=a.test, ,~Script ,domains".toList :=
    Text.trim_eq_iff.1 (by decide)
  have hmarks : '#' ∉ "@@ads.test^$Domain=a.test, ,~Script ,domains".toList := by decide
  have hparts : RuleParts.Of ⟨true, "ads.test^".toList,
      ["Domain=a.test".toList, "~Script".toList, "domains".toList]⟩
      "@@ads.test^$Domain=a.test, ,~Script ,domains".toList :=
    RuleParts.of_iff.2 (by decide)
  refine ((((read_grammar ht).2.2 (by decide) (by decide) (by decide) ?_ ?_).2 _ hparts) _).2 ?_
  · exact fun h => hmarks (h.subset (by decide))
  · exact fun h => hmarks (h.subset (by decide))
  · refine .offence (by decide) (by unfold IsDegenerate; decide)
      ⟨["Domain=a.test".toList], _, _, rfl, ?_, ?_⟩
    · simp only [List.forall_mem_singleton, ← OptionItem.read_eq_error_iff]
      intro reason
      exact nofun
    · exact OptionItem.read_eq_error_iff.1 (by decide)

end FilterLine

end AdFilter
