import AdFilter.Proofs.FilterList.Counts
import AdFilter.Proofs.Hide.Index
import AdFilter.Proofs.KeywordIndex.Growth

/-!
# What loading counts is what the index gains

Loading counts and files in different places. `Accounts` says that the two agree: every line of a
text is counted once, the index has as many rules and element-hide entries more as were counted,
and it has them behind those that it had. `load_accounts` says so of every text, and of every index,
however far its element-hide entries are merged.
-/

namespace AdFilter

namespace FilterLine

/-- Without blanks around it, the line starts with the mark of an exception. -/
def startsException (line : List Char) : Bool :=
  ['@', '@'].isPrefixOf (Text.trim line)

theorem isException_of_read {line : List Char} {r : Rule} (h : read line = .ok (.rule r)) :
    r.isException = startsException line := by
  obtain ⟨-, -, -, hrule⟩ := read_eq_rule_iff.1 h
  obtain ⟨-, -, -, options, -, rfl⟩ := readRule_eq_ok_iff.1 hrule
  rw [startsException, Bool.eq_iff_iff, List.isPrefixOf_iff_prefix]
  have hbody : IsBody (Text.trim line) (splitException (Text.trim line)).1
      (splitException (Text.trim line)).2 := isBody_iff.2 rfl
  show (splitException (Text.trim line)).1 = true ↔ _
  generalize splitException (Text.trim line) = parts at hbody
  generalize Text.trim line = trimmed at hbody ⊢
  obtain ⟨isException, body⟩ := parts
  cases hbody with
  | exception => exact iff_of_true rfl ⟨body, rfl⟩
  | plain hat => exact iff_of_false Bool.false_ne_true hat

theorem filter_rulesOf {p : Rule → Bool} {q : List Char → Bool}
    (h : ∀ line r, read line = .ok (.rule r) → p r = q line) (lines : List (List Char)) :
    (rulesOf lines).filter p = rulesOf (lines.filter q) := by
  induction lines with
  | nil => rfl
  | cons line lines ih =>
    have hcons : rulesOf (line :: lines) = rulesOf [line] ++ rulesOf lines :=
      rulesOf_append [line] lines
    have hfilter : (line :: lines).filter q = [line].filter q ++ lines.filter q :=
      List.filter_append [line] lines
    have hline : (rulesOf [line]).filter p = rulesOf ([line].filter q) := by
      cases hq : q line <;> cases hread : read line with
      | error reason => simp [rulesOf, itemsOf, hq, hread, Except.toOption]
      | ok item =>
        cases item with
        | rule r => simp [rulesOf, itemsOf, hq, hread, Except.toOption, Item.rule?, h line r hread]
        | hide e => simp [rulesOf, itemsOf, hq, hread, Except.toOption, Item.rule?]
    rw [hcons, List.filter_append, ih, hline, hfilter, rulesOf_append]

theorem filter_isException_rulesOf (lines : List (List Char)) :
    (rulesOf lines).filter (·.isException) = rulesOf (lines.filter startsException) :=
  filter_rulesOf (fun _ _ hread => isException_of_read hread) lines

theorem filter_not_isException_rulesOf (lines : List (List Char)) :
    (rulesOf lines).filter (!·.isException) = rulesOf (lines.filter (!startsException ·)) :=
  filter_rulesOf (fun _ _ hread => by rw [isException_of_read hread]) lines

theorem countP_rulesOf (p : Rule → Bool) (texts : List (List Char)) :
    (rulesOf (texts.filter (!startsException ·))).countP p +
      (rulesOf (texts.filter startsException)).countP p = (rulesOf texts).countP p := by
  rw [← filter_isException_rulesOf, ← filter_not_isException_rulesOf,
    Nat.add_comm, ← List.countP_append]
  exact (List.filter_append_perm Rule.isException (rulesOf texts)).countP_eq p

theorem length_rulesOf (texts : List (List Char)) :
    (rulesOf (texts.filter (!startsException ·))).length +
      (rulesOf (texts.filter startsException)).length = (rulesOf texts).length := by
  simpa only [List.countP_true] using countP_rulesOf (fun _ => true) texts

end FilterLine

namespace RuleIndex

variable {before after : RuleIndex} {block exception : List Rule}

theorem ruleCount_of_grows (hblock : before.block.Grows after.block block)
    (hexception : before.exception.Grows after.exception exception) :
    after.ruleCount = before.ruleCount + (block.length + exception.length) := by
  rw [ruleCount, ruleCount, hblock.size, hexception.size]
  omega

theorem unkeyedCount_of_grows (hblock : before.block.Grows after.block block)
    (hexception : before.exception.Grows after.exception exception) :
    after.unkeyedCount = before.unkeyedCount +
      (block.countP (·.keyword = "") + exception.countP (·.keyword = "")) := by
  rw [unkeyedCount, unkeyedCount, hblock.size_unkeyed, hexception.size_unkeyed]
  omega

end RuleIndex

namespace FilterList

open FilterLine (rulesOf hidesOf startsException isPassedOver)

namespace Loading

variable {before : RuleIndex} {rules : List Rule}

theorem block_grows (h : before.Holds rules) (texts : List (List Char)) :
    before.block.Grows (Loading.lines { index := before } texts).index.block
      (rulesOf (texts.filter (!startsException ·))) := by
  rw [← FilterLine.filter_not_isException_rulesOf]
  refine h.block.grows ?_
  rw [← List.filter_append]
  exact (holds_lines_of_holds h texts).block

theorem exception_grows (h : before.Holds rules) (texts : List (List Char)) :
    before.exception.Grows (Loading.lines { index := before } texts).index.exception
      (rulesOf (texts.filter startsException)) := by
  rw [← FilterLine.filter_isException_rulesOf]
  refine h.exception.grows ?_
  rw [← List.filter_append]
  exact (holds_lines_of_holds h texts).exception

theorem entries_lines (before : RuleIndex) (texts : List (List Char)) :
    (Loading.lines { index := before } texts).index.hides.entries.toList =
      before.hides.entries.toList ++ hidesOf texts := by
  rw [lines_index, RuleIndex.hides_addAll, (HideIndex.foldl_insert _ _).1, hidesOf]

end Loading

/-- The lines are counted, and what they give stands behind what the index had. -/
structure Accounts (before : RuleIndex) (texts : List (List Char)) (after : Loading) : Prop where
  lines : after.stats.lines = texts.length
  /-- every line is counted for one thing -/
  parts : after.stats.rules + after.stats.hides + after.stats.rejected + texts.countP isPassedOver =
    after.stats.lines
  ruleCount : after.index.ruleCount = before.ruleCount + after.stats.rules
  hideCount : after.index.hides.size = before.hides.size + after.stats.hides
  unkeyedCount : after.index.unkeyedCount = before.unkeyedCount + after.stats.blankKeywords
  block : before.block.Grows after.index.block (rulesOf (texts.filter (!startsException ·)))
  exception : before.exception.Grows after.index.exception (rulesOf (texts.filter startsException))
  hides : after.index.hides.entries.toList = before.hides.entries.toList ++ hidesOf texts

/-- Loading loses nothing: what a text gives is counted, is added to the index, and stands behind
all that the index had. The index may be any that items were added to, and its element-hide entries
may be any at all, so merges between the additions make no difference. -/
theorem load_accounts (added : List FilterLine.Item) (hides : HideIndex) (text : String) :
    let before := { ({} : RuleIndex).addAll added with hides }
    Accounts before (Text.lines text.toList) (load before text) := by
  intro before
  have hadded := RuleIndex.Holds.empty.addAll added
  have hbefore : before.Holds (added.filterMap FilterLine.Item.rule?) :=
    ⟨hadded.block, hadded.exception⟩
  generalize htexts : Text.lines text.toList = texts
  have hload : load before text = Loading.lines { index := before } texts := by rw [load, htexts]
  have hstats : (Loading.lines { index := before } texts).stats = .ofLines texts := by
    rw [Loading.lines_stats, LoadStats.empty_merge]
  have hblock := Loading.block_grows hbefore texts
  have hexception := Loading.exception_grows hbefore texts
  have hentries := Loading.entries_lines before texts
  rw [hload]
  constructor
  case lines => rw [hstats, LoadStats.ofLines]
  case parts => rw [hstats, LoadStats.ofLines_lines_eq]
  case ruleCount =>
    rw [hstats, LoadStats.ofLines, RuleIndex.ruleCount_of_grows hblock hexception,
      FilterLine.length_rulesOf]
  case unkeyedCount =>
    rw [hstats, LoadStats.ofLines, RuleIndex.unkeyedCount_of_grows hblock hexception,
      FilterLine.countP_rulesOf]
  case hideCount =>
    rw [hstats, HideIndex.size, HideIndex.size, ← Array.length_toList, hentries, List.length_append,
      Array.length_toList, LoadStats.ofLines]
  case block => exact hblock
  case exception => exact hexception
  case hides => exact hentries

end FilterList

end AdFilter
