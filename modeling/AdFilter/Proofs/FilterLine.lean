import AdFilter.FilterLine.Basic
import AdFilter.Proofs.Text.Fields

/-!
# Lines that give a rule

What a line must be to give a blocking rule or an exception, and which one it gives.
-/

namespace AdFilter.FilterLine

/-- The rule that a line gives, from its pattern and its options. -/
def ruleOf (line : List Char) (pattern : String) (options : Options) : Rule where
  text := String.ofList line
  isException := (splitException line).1
  matchCase := options.matchCase
  pattern := Pattern.compile pattern options.matchCase
  keyword := Glob.keyword pattern
  domains := options.domains
  party := options.party

theorem readRule_eq (line : List Char) :
    let parts := splitOptions (splitException line).2
    let pattern := String.ofList parts.1
    readRule line =
      if pattern = "" then .error .emptyPattern
      else if pattern ∈ degeneratePatterns then .error .degeneratePattern
      else (Options.read parts.2).bind fun options =>
        if Glob.isTooLarge pattern = true then .error .patternTooLarge
        else .ok (ruleOf line pattern options) := by
  intro parts pattern
  unfold readRule
  show (if pattern.isEmpty = true then _ else if pattern ∈ degeneratePatterns then _ else _) = _
  by_cases hempty : pattern = ""
  · rw [if_pos hempty, if_pos (by simp [hempty])]
    rfl
  · rw [if_neg hempty, if_neg (by simp [hempty])]
    by_cases hdegenerate : pattern ∈ degeneratePatterns
    · rw [if_pos hdegenerate, if_pos hdegenerate]
      rfl
    · rw [if_neg hdegenerate, if_neg hdegenerate]
      show (Options.read parts.2 >>= _) = _
      cases Options.read parts.2 with
      | error reason => rfl
      | ok options =>
        show (if Glob.isTooLarge pattern = true then _ else _) =
          if Glob.isTooLarge pattern = true then _ else _
        split <;> rfl

theorem readRule_eq_ok_iff {line : List Char} {r : Rule} :
    let parts := splitOptions (splitException line).2
    let pattern := String.ofList parts.1
    readRule line = .ok r ↔
      pattern ≠ "" ∧ pattern ∉ degeneratePatterns ∧ Glob.isTooLarge pattern = false ∧
        ∃ options, Options.read parts.2 = .ok options ∧ r = ruleOf line pattern options := by
  intro parts pattern
  rw [readRule_eq]
  split
  · next hempty => exact iff_of_false nofun fun h => h.1 hempty
  · next hempty =>
    split
    · next hdegenerate => exact iff_of_false nofun fun h => h.2.1 hdegenerate
    · next hdegenerate =>
      cases hoptions : Options.read parts.2 with
      | error reason => exact iff_of_false nofun fun ⟨_, _, _, _, h, _⟩ => by cases h
      | ok options =>
        show (if Glob.isTooLarge pattern = true then _ else _) = _ ↔ _
        split
        · next hlarge => exact iff_of_false nofun fun h => absurd hlarge (by simp [h.2.2.1])
        · next hlarge =>
          constructor
          · intro h
            cases h
            exact ⟨hempty, hdegenerate, by simpa using hlarge, options, rfl, rfl⟩
          · rintro ⟨-, -, -, _, h, rfl⟩
            cases h
            rfl

theorem isComment_iff {line : List Char} :
    isComment line = true ↔ line.head? = some '!' ∨ line.head? = some '[' := by
  simp [isComment]

theorem isComment_eq_false_iff {line : List Char} :
    isComment line = false ↔ line.head? ≠ some '!' ∧ line.head? ≠ some '[' := by
  rw [Bool.eq_false_iff, Ne, isComment_iff, not_or]

theorem splitHide_eq_none_iff {line : List Char} :
    splitHide line = none ↔ ¬exceptionMark <:+: line ∧ ¬hideMark <:+: line := by
  rw [← Text.splitOnce_eq_none_iff, ← Text.splitOnce_eq_none_iff, splitHide]
  cases Text.splitOnce exceptionMark line <;> simp

theorem splitHide_suffix {line left right : List Char} {isException : Bool}
    (h : splitHide line = some (isException, left, right)) : right <:+ line := by
  unfold splitHide at h
  cases hexception : Text.splitOnce exceptionMark line with
  | some sides =>
    rw [hexception] at h
    cases h
    exact ⟨_, (Text.eq_append_of_splitOnce hexception).symm⟩
  | none =>
    rw [hexception] at h
    obtain ⟨sides, hhide, hsides⟩ := Option.map_eq_some_iff.1 h
    cases hsides
    exact ⟨_, (Text.eq_append_of_splitOnce hhide).symm⟩

theorem read_eq {line : List Char} (hempty : Text.trim line ≠ [])
    (hcomment : isComment (Text.trim line) = false) :
    read line =
      match splitHide (Text.trim line) with
      | some (isException, names, selector) => (readHide isException names selector).map .hide
      | none => (readRule (Text.trim line)).map .rule := by
  unfold read readTrimmed
  exact (if_neg (by simp [hempty])).trans (if_neg (by simp [hcomment]))

theorem read_eq_ok_iff {line : List Char} {item : Item} :
    read line = .ok item ↔
      Text.trim line ≠ [] ∧ isComment (Text.trim line) = false ∧
        (match splitHide (Text.trim line) with
          | some (isException, names, selector) =>
            (readHide isException names selector).map Item.hide
          | none => (readRule (Text.trim line)).map Item.rule) = .ok item := by
  by_cases hempty : Text.trim line = []
  · rw [read, hempty]
    exact iff_of_false nofun fun h => h.1 rfl
  · cases hcomment : isComment (Text.trim line) with
    | true =>
      rw [read, readTrimmed, if_neg (by simp [hempty]), if_pos hcomment]
      exact iff_of_false nofun fun h => by cases h.2.1
    | false =>
      rw [read_eq hempty hcomment]
      exact ⟨fun h => ⟨hempty, rfl, h⟩, fun h => h.2.2⟩

theorem read_eq_rule_iff {line : List Char} {r : Rule} :
    read line = .ok (.rule r) ↔
      Text.trim line ≠ [] ∧ isComment (Text.trim line) = false ∧
        splitHide (Text.trim line) = none ∧ readRule (Text.trim line) = .ok r := by
  rw [read_eq_ok_iff]
  cases splitHide (Text.trim line) with
  | some parts =>
    obtain ⟨isException, names, selector⟩ := parts
    cases hread : readHide isException names selector <;> simp [hread, Except.map]
  | none => cases readRule (Text.trim line) <;> simp [Except.map]

theorem read_eq_hide_iff {line : List Char} {e : HideEntry} :
    read line = .ok (.hide e) ↔
      Text.trim line ≠ [] ∧ isComment (Text.trim line) = false ∧
        ∃ isException names selector,
          splitHide (Text.trim line) = some (isException, names, selector) ∧
            readHide isException names selector = .ok e := by
  rw [read_eq_ok_iff]
  cases splitHide (Text.trim line) with
  | some parts =>
    obtain ⟨isException, names, selector⟩ := parts
    cases hread : readHide isException names selector <;> simp [hread, Except.map]
  | none => cases readRule (Text.trim line) <;> simp [Except.map]

/-- A line without any mark is the pattern of a rule. -/
theorem read_pattern {line : List Char} (hblank : ∀ c ∈ line, Text.isBlank c = false)
    (hmarks : '#' ∉ line ∧ '$' ∉ line ∧ '@' ∉ line) (hcomment : isComment line = false)
    (hempty : String.ofList line ≠ "") (hdegenerate : String.ofList line ∉ degeneratePatterns)
    (hlarge : Glob.isTooLarge (String.ofList line) = false) :
    read line = .ok (.rule (ruleOf line (String.ofList line) {})) := by
  obtain ⟨hhash, hdollar, hat⟩ := hmarks
  have hexception : splitException line = (false, line) := by
    unfold splitException
    split
    · simp at hat
    · rfl
  have hoptions : splitOptions line = (line, []) := by
    rw [splitOptions, Text.splitOnce_eq_none hdollar]
    rfl
  have hhide : splitHide line = none := by
    rw [splitHide, exceptionMark, Text.splitOnce_eq_none hhash, hideMark,
      Text.splitOnce_eq_none hhash]
    rfl
  have hrule : readRule line = .ok (ruleOf line (String.ofList line) {}) := by
    refine readRule_eq_ok_iff.2 ?_
    rw [hexception, hoptions]
    exact ⟨hempty, hdegenerate, hlarge, {}, rfl, rfl⟩
  rw [read_eq_rule_iff, (Text.isTrimmed_of_not_blank hblank).trim_eq]
  exact ⟨fun h => hempty (by rw [h]), hcomment, hhide, hrule⟩

end AdFilter.FilterLine
