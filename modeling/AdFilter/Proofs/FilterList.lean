import AdFilter.FilterList
import AdFilter.Proofs.RuleIndex

/-!
# What lines leave in an index

Loading lines files the rules that they give, in their order, and nothing else: an index that was
empty then holds `rulesOf` of the lines (`holds_lines`). In the same way it has the element-hide
entries `hidesOf` of the lines, one behind the other (`hides_addAll`).
-/

namespace AdFilter

namespace FilterLine

/-- The blocking rule or exception that an item is, unless it is an element-hide entry. -/
def Item.rule? : Item → Option Rule
  | .rule r => some r
  | .hide _ => none

/-- The element-hide entry that an item is, unless it is a rule. -/
def Item.hide? : Item → Option HideEntry
  | .rule _ => none
  | .hide e => some e

def itemsOf (lines : List (List Char)) : List Item :=
  lines.filterMap fun line => (read line).toOption

def rulesOf (lines : List (List Char)) : List Rule :=
  (itemsOf lines).filterMap Item.rule?

def hidesOf (lines : List (List Char)) : List HideEntry :=
  (itemsOf lines).filterMap Item.hide?

theorem mem_itemsOf {lines : List (List Char)} {item : Item} :
    item ∈ itemsOf lines ↔ ∃ line ∈ lines, read line = .ok item := by
  have hread : ∀ line, (read line).toOption = some item ↔ read line = .ok item := by
    intro line
    cases read line <;> simp [Except.toOption]
  simp [itemsOf, hread]

theorem mem_rulesOf_iff_item {lines : List (List Char)} {r : Rule} :
    r ∈ rulesOf lines ↔ .rule r ∈ itemsOf lines := by
  have hrule : ∀ item : Item, item.rule? = some r ↔ item = .rule r := by
    intro item
    cases item <;> simp [Item.rule?]
  simp [rulesOf, hrule]

theorem mem_hidesOf_iff_item {lines : List (List Char)} {e : HideEntry} :
    e ∈ hidesOf lines ↔ .hide e ∈ itemsOf lines := by
  have hhide : ∀ item : Item, item.hide? = some e ↔ item = .hide e := by
    intro item
    cases item <;> simp [Item.hide?]
  simp [hidesOf, hhide]

theorem mem_rulesOf {lines : List (List Char)} {r : Rule} :
    r ∈ rulesOf lines ↔ ∃ line ∈ lines, read line = .ok (.rule r) :=
  mem_rulesOf_iff_item.trans mem_itemsOf

end FilterLine

namespace RuleIndex

variable {index : RuleIndex} {rules : List Rule}

theorem Holds.addAll (h : Holds index rules) (items : List FilterLine.Item) :
    Holds (index.addAll items) (rules ++ items.filterMap FilterLine.Item.rule?) := by
  induction items generalizing index rules with
  | nil => simpa [RuleIndex.addAll] using h
  | cons item items ih =>
    cases item with
    | rule r =>
      have hrest := ih (h.addRule r)
      rw [List.append_assoc] at hrest
      exact hrest
    | hide e => exact ih (h.addHide e)

theorem hides_addAll (index : RuleIndex) (items : List FilterLine.Item) :
    (index.addAll items).hides =
      (items.filterMap FilterLine.Item.hide?).foldl HideIndex.insert index.hides := by
  induction items generalizing index with
  | nil => rfl
  | cons item items ih =>
    have hrest : (index.addAll (item :: items)).hides = ((index.add item).addAll items).hides :=
      rfl
    rw [hrest, ih]
    cases item with
    | rule r =>
      have hhides : (index.add (.rule r)).hides = index.hides := by
        show (index.addRule r).hides = index.hides
        unfold addRule
        split <;> rfl
      rw [hhides]
      rfl
    | hide e => rfl

end RuleIndex

namespace FilterList.Loading

theorem line_index (l : Loading) (text : List Char) :
    (l.line text).index = l.index.addAll (FilterLine.read text).toOption.toList := by
  unfold line
  cases FilterLine.read text <;> rfl

theorem lines_index (l : Loading) (texts : List (List Char)) :
    (l.lines texts).index = l.index.addAll (FilterLine.itemsOf texts) := by
  induction texts generalizing l with
  | nil => rfl
  | cons text texts ih =>
    have hitems : FilterLine.itemsOf (text :: texts) =
        (FilterLine.read text).toOption.toList ++ FilterLine.itemsOf texts := by
      unfold FilterLine.itemsOf
      rw [List.filterMap_cons]
      cases (FilterLine.read text).toOption <;> rfl
    have hrest := ih (l.line text)
    rw [line_index] at hrest
    rw [hitems, RuleIndex.addAll, List.foldl_append]
    exact hrest

theorem holds_lines_of_holds {index : RuleIndex} {rules : List Rule} (h : index.Holds rules)
    (lines : List (List Char)) :
    (Loading.lines { index } lines).index.Holds (rules ++ FilterLine.rulesOf lines) := by
  rw [lines_index]
  exact h.addAll (FilterLine.itemsOf lines)

/-- An index that was empty holds the rules of the lines that were loaded into it. -/
theorem holds_lines (lines : List (List Char)) :
    (Loading.lines { index := {} } lines).index.Holds (FilterLine.rulesOf lines) :=
  holds_lines_of_holds .empty lines

end FilterList.Loading

end AdFilter
