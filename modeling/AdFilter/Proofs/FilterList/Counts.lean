import AdFilter.Proofs.FilterLine.RuleLine
import AdFilter.Proofs.FilterList

/-!
# What loading counts

The counts do not depend on the index that is loaded into. They are those of the lines
(`LoadStats.ofLines`), added to what was counted before (`Loading.lines_stats`), and no line is lost:
it gives a rule, an element-hide entry or a reason to reject it, or it is blank or a comment
(`LoadStats.ofLines_lines_eq`).
-/

namespace AdFilter

namespace FilterLine

/-- The line was meant as a rule and is none. -/
def isRejected (line : List Char) : Bool :=
  match read line with
  | .ok _ => false
  | .error reason => !reason.isHarmless

/-- The line is not meant as a rule. -/
def isPassedOver (line : List Char) : Bool :=
  (Text.trim line).isEmpty || isComment (Text.trim line)

theorem isPassedOver_eq (line : List Char) : isPassedOver line =
    match read line with
    | .ok _ => false
    | .error reason => reason.isHarmless := by
  have hpassed : isPassedOver line = true ↔
      read line = .error .blank ∨ read line = .error .comment := by
    rw [read_eq_blank_iff, read_eq_comment_iff, isPassedOver, Bool.or_eq_true, List.isEmpty_iff]
  cases hread : read line with
  | ok item => simp [Bool.eq_false_iff, hpassed, hread]
  | error reason =>
    rw [Bool.eq_iff_iff, hpassed, hread]
    cases reason <;> simp [RejectReason.isHarmless]

theorem itemsOf_singleton (line : List Char) : itemsOf [line] = (read line).toOption.toList := by
  unfold itemsOf
  cases hitem : (read line).toOption <;> simp [hitem]

theorem itemsOf_append (a b : List (List Char)) : itemsOf (a ++ b) = itemsOf a ++ itemsOf b :=
  List.filterMap_append

theorem rulesOf_append (a b : List (List Char)) : rulesOf (a ++ b) = rulesOf a ++ rulesOf b := by
  rw [rulesOf, itemsOf_append, List.filterMap_append, rulesOf, rulesOf]

theorem hidesOf_append (a b : List (List Char)) : hidesOf (a ++ b) = hidesOf a ++ hidesOf b := by
  rw [hidesOf, itemsOf_append, List.filterMap_append, hidesOf, hidesOf]

end FilterLine

namespace LoadStats

open FilterLine (rulesOf hidesOf itemsOf)

@[simp]
theorem empty_merge (s : LoadStats) : merge {} s = s := by
  simp [merge]

theorem merge_assoc (a b c : LoadStats) : (a.merge b).merge c = a.merge (b.merge c) := by
  simp [merge, Nat.add_assoc]

theorem record_eq_merge (s : LoadStats) (result : Except RejectReason FilterLine.Item) :
    s.record result = s.merge (record {} result) := by
  cases result with
  | ok item => cases item <;> simp [record, merge]
  | error reason => simp [record, merge]

def ofLines (lines : List (List Char)) : LoadStats where
  lines := lines.length
  rules := (rulesOf lines).length
  hides := (hidesOf lines).length
  blankKeywords := (rulesOf lines).countP (·.keyword = "")
  rejected := lines.countP FilterLine.isRejected

theorem ofLines_append (a b : List (List Char)) :
    ofLines (a ++ b) = (ofLines a).merge (ofLines b) := by
  simp [ofLines, merge, FilterLine.rulesOf_append, FilterLine.hidesOf_append]

theorem ofLines_singleton (line : List Char) :
    ofLines [line] = record {} (FilterLine.read line) := by
  have hitems := FilterLine.itemsOf_singleton line
  cases hread : FilterLine.read line with
  | error reason =>
    cases hharmless : reason.isHarmless <;>
      simp [ofLines, rulesOf, hidesOf, hitems, hread, record, FilterLine.isRejected,
        Except.toOption, hharmless]
  | ok item =>
    cases item <;>
      simp [ofLines, rulesOf, hidesOf, hitems, hread, record, FilterLine.isRejected,
        Except.toOption, FilterLine.Item.rule?, FilterLine.Item.hide?]

/-- Every line is counted for one thing, unless it is passed over. -/
theorem ofLines_lines_eq (lines : List (List Char)) :
    (ofLines lines).lines = (ofLines lines).rules + (ofLines lines).hides +
      (ofLines lines).rejected + lines.countP FilterLine.isPassedOver := by
  induction lines with
  | nil => rfl
  | cons line lines ih =>
    rw [← List.singleton_append, ofLines_append, ofLines_singleton, List.countP_append,
      List.countP_singleton, FilterLine.isPassedOver_eq]
    cases FilterLine.read line with
    | error reason =>
      simp only [merge, record]
      split <;> omega
    | ok item =>
      cases item <;>
      · simp only [merge, record, Bool.false_eq_true, if_false]
        omega

end LoadStats

namespace FilterList.Loading

theorem line_stats (l : Loading) (text : List Char) :
    (l.line text).stats = l.stats.record (FilterLine.read text) := by
  unfold line
  cases hread : FilterLine.read text <;> rfl

theorem lines_stats (l : Loading) (texts : List (List Char)) :
    (l.lines texts).stats = l.stats.merge (.ofLines texts) := by
  induction texts generalizing l with
  | nil => rfl
  | cons text texts ih =>
    have hcons : l.lines (text :: texts) = (l.line text).lines texts := rfl
    rw [hcons, ih, line_stats, LoadStats.record_eq_merge, LoadStats.merge_assoc,
      ← LoadStats.ofLines_singleton, ← LoadStats.ofLines_append, List.singleton_append]

/-- What was counted before takes no part in loading. -/
theorem lines_eq (l : Loading) (texts : List (List Char)) :
    l.lines texts =
      { index := (Loading.lines { index := l.index } texts).index
        stats := l.stats.merge (Loading.lines { index := l.index } texts).stats } := by
  rw [lines_index, lines_stats, LoadStats.empty_merge, ← lines_index l, ← lines_stats]

theorem lines_append (l : Loading) (texts more : List (List Char)) :
    l.lines (texts ++ more) = (l.lines texts).lines more :=
  List.foldl_append

end FilterList.Loading

end AdFilter
