import AdFilter.Proofs.FilterLine
import AdFilter.Proofs.FilterList.Source
import AdFilter.Proofs.Hide.Index
import AdFilter.Proofs.Hide.Stylesheet

/-!
# Selectors of loaded lists

The selector of a line is a part of it, and merging entries makes no new selectors. So whatever is
loaded into an index and however its entries are merged, each of its selectors stands on one line
(`isOneLine_afterSteps`), and its entries are told by their stylesheet (`ofEntries_laws`).
-/

namespace AdFilter

open HideEntry (IsOneLine IsWrittenAs declarations linesOf ruleBody)

/-! ## Selectors that are read -/

theorem FilterLine.isOneLine_of_read {line : List Char} (hline : '\n' ∉ line) {e : HideEntry}
    (h : read line = .ok (.hide e)) : e.IsOneLine := by
  obtain ⟨-, -, isException, names, right, hsplit, hread⟩ := read_eq_hide_iff.1 h
  have hright : right <:+: line := (splitHide_suffix hsplit).isInfix.trans (Text.trim_isInfix line)
  have hselectors : e.selectors = [String.ofList (Text.trim right)] := by
    unfold readHide at hread
    dsimp only at hread
    split at hread
    · cases hread
    · cases hread
      rfl
  intro selector hselector
  rw [hselectors, List.mem_singleton] at hselector
  rw [hselector, String.toList_ofList]
  exact fun hmem => hline (((Text.trim_isInfix right).trans hright).subset hmem)

/-! ## Selectors that are merged -/

/-- Whether selectors stand on one line is not changed by a merge. -/
theorem HideEntry.SameUnions.isOneLine {a b : List HideEntry}
    (h : SameUnions (declarations a) (declarations b)) (hb : ∀ e ∈ b, e.IsOneLine) :
    ∀ e ∈ a, e.IsOneLine := by
  intro e he selector hselector
  obtain ⟨scope, hdeclared⟩ :=
    (h.declared selector).1 ⟨e.scope, mem_declarations.2 ⟨e, he, rfl, hselector⟩⟩
  obtain ⟨e', he', -, hselector'⟩ := mem_declarations.1 hdeclared
  exact hb e' he' selector hselector'

namespace RuleIndex

/-- The element-hide entries are what is left of entries whose selectors stand on one line each. -/
def HasOneLines (index : RuleIndex) : Prop :=
  ∃ inserted, index.hides.Holds inserted ∧ ∀ e ∈ inserted, e.IsOneLine

theorem HasOneLines.empty : HasOneLines {} :=
  ⟨[], .empty, nofun⟩

theorem HasOneLines.isOneLine {index : RuleIndex} (h : index.HasOneLines) :
    ∀ e ∈ index.hides.entries.toList, e.IsOneLine := by
  obtain ⟨inserted, hholds, hlines⟩ := h
  exact hholds.sameUnions.isOneLine hlines

theorem HasOneLines.addAll {index : RuleIndex} (h : index.HasOneLines)
    {items : List FilterLine.Item} (hitems : ∀ e, .hide e ∈ items → e.IsOneLine) :
    (index.addAll items).HasOneLines := by
  obtain ⟨inserted, hholds, hlines⟩ := h
  unfold HasOneLines
  rw [hides_addAll]
  refine ⟨_, hholds.foldl_insert _, fun e he => ?_⟩
  rcases List.mem_append.1 he with he | he
  · exact hlines e he
  · obtain ⟨item, hitem, hhide⟩ := List.mem_filterMap.1 he
    cases item with
    | rule r => cases hhide
    | hide e' =>
      cases hhide
      exact hitems e hitem

end RuleIndex

/-! ## Indexes that lists are loaded into -/

namespace FilterList

inductive Step where
  | text (list : String)
  | source (list : Source)
  | finalize (byScope : Bool)
  | optimize

def step (index : RuleIndex) : Step → RuleIndex
  | .text list => (load index list).index
  | .source list => (loadSource index list).2
  | .finalize byScope => index.finalizeHides byScope
  | .optimize => index.optimize.2

def afterSteps (steps : List Step) : RuleIndex :=
  steps.foldl step {}

theorem Loading.hasOneLines_line {l : Loading} (h : l.index.HasOneLines) {text : List Char}
    (htext : '\n' ∉ text) : (l.line text).index.HasOneLines := by
  rw [line_index]
  refine h.addAll fun e he => FilterLine.isOneLine_of_read htext ?_
  cases hread : FilterLine.read text with
  | error reason => simp [hread, Except.toOption] at he
  | ok item =>
    rw [hread] at he
    rw [List.mem_singleton.1 he]

theorem Loading.hasOneLines_lines {l : Loading} (h : l.index.HasOneLines)
    {texts : List (List Char)} (htexts : ∀ text ∈ texts, '\n' ∉ text) :
    (l.lines texts).index.HasOneLines := by
  induction texts generalizing l with
  | nil => exact h
  | cons text texts ih =>
    obtain ⟨htext, hrest⟩ := List.forall_mem_cons.1 htexts
    rw [lines_cons]
    exact ih (hasOneLines_line h htext) hrest

/-- While bytes are read, no line feed is held back. -/
structure Reading.IsClean (r : Reading) : Prop where
  index : r.index.HasOneLines
  unfinished : 10 ∉ r.unfinished

theorem Reading.IsClean.byte {r : Reading} (h : r.IsClean) (b : UInt8) : (r.byte b).IsClean := by
  have hline : '\n' ∉ Text.decodeLossy r.unfinished.reverse :=
    Text.newline_not_mem_decodeLossy (by simpa using h.unfinished)
  by_cases hb : b = 10
  · subst hb
    refine ⟨?_, by simp [unfinished_byte_newline]⟩
    rw [toLoading_byte_newline]
    exact Loading.hasOneLines_line h.index hline
  · rw [byte_of_ne hb]
    exact ⟨h.index, by simp [h.unfinished, Ne.symm hb]⟩

theorem Reading.IsClean.foldl_byte {r : Reading} (h : r.IsClean) (bytes : List UInt8) :
    (bytes.foldl Reading.byte r).IsClean := by
  induction bytes generalizing r with
  | nil => exact h
  | cons b bytes ih => exact ih (h.byte b)

theorem Reading.IsClean.finish {r : Reading} (h : r.IsClean) : r.finish.index.HasOneLines := by
  rw [r.finish_eq_lines h.unfinished]
  exact Loading.hasOneLines_lines h.index fun _ => Text.newline_not_mem_of_mem_lines

theorem hasOneLines_step {index : RuleIndex} (h : index.HasOneLines) (s : Step) :
    (step index s).HasOneLines := by
  cases s with
  | text list => exact Loading.hasOneLines_lines h fun _ => Text.newline_not_mem_of_mem_lines
  | source list =>
    have hclean : Reading.IsClean (list.chunks.flatten.foldl Reading.byte { index }) :=
      Reading.IsClean.foldl_byte ⟨h, by simp⟩ _
    show (loadSource index list).2.HasOneLines
    unfold loadSource
    rw [← List.foldl_flatten]
    cases list.failure with
    | none => exact hclean.finish
    | some failure => exact hclean.index
  | finalize byScope =>
    obtain ⟨inserted, hholds, hlines⟩ := h
    cases byScope with
    | true => exact ⟨inserted, hholds.mergeByScope, hlines⟩
    | false => exact ⟨inserted, hholds.mergeBySelector, hlines⟩
  | optimize =>
    obtain ⟨inserted, hholds, hlines⟩ := h
    exact ⟨inserted, hholds.mergeBySelector.mergeByScope, hlines⟩

theorem hasOneLines_afterSteps (steps : List Step) : (afterSteps steps).HasOneLines := by
  suffices hall : ∀ index : RuleIndex, index.HasOneLines → (steps.foldl step index).HasOneLines from
    hall {} .empty
  induction steps with
  | nil => exact fun _ h => h
  | cons s steps ih => exact fun index h => ih _ (hasOneLines_step h s)

theorem isOneLine_afterSteps (steps : List Step) :
    ∀ e ∈ (afterSteps steps).hides.entries.toList, e.IsOneLine :=
  (hasOneLines_afterSteps steps).isOneLine

end FilterList

/-! ## Stylesheets -/

/-- Selectors that are loaded stand on one line each, and a stylesheet of such selectors consists of a
header, the selectors and an empty line for each entry. It tells how its entries are written, and
nothing else about them. -/
theorem Sheet.ofEntries_laws :
    (∀ steps, ∀ e ∈ (FilterList.afterSteps steps).hides.entries.toList, e.IsOneLine) ∧
    ∀ entries : List HideEntry,
      let sheet := ofEntries entries
      sheet.selectors = (entries.flatMap (·.selectors)).length ∧
      ((∀ e ∈ entries, e.IsOneLine) →
        Text.split (· == '\n') sheet.text.toList = linesOf entries ++ [[]] ∧
        (linesOf entries).countP (ruleBody.isSuffixOf ·) = sheet.selectors ∧
        ∀ others : List HideEntry, (∀ e ∈ others, e.IsOneLine) →
          (sheet.text = (ofEntries others).text ↔ List.Forall₂ IsWrittenAs entries others)) := by
  refine ⟨FilterList.isOneLine_afterSteps, fun entries => ?_⟩
  rw [ofEntries_eq]
  refine ⟨rfl, fun hentries => ?_⟩
  refine ⟨HideEntry.split_stylesheet hentries, HideEntry.countP_linesOf entries, ?_⟩
  intro others hothers
  rw [ofEntries_eq]
  exact HideEntry.stylesheet_eq_iff hentries hothers

/-- A selector that looks like a header, one without characters, an entry without selectors, and a
domain that is written like two. -/
theorem Sheet.ofEntries_laws_lookalikes :
    let selectors := ["/* domains: \"\", exclude: \"\" */", ""]
    let two : HideEntry :=
      { scope := { domains := .ofList [.ofHost "a", .ofHost "b"] }, selectors }
    let one : HideEntry := { scope := { domains := .ofList [.ofHost "A,b"] }, selectors }
    let bare : HideEntry := { scope := {}, selectors := [] }
    (∀ e ∈ [two, bare], e.IsOneLine) ∧ (∀ e ∈ [one, bare], e.IsOneLine) ∧
      (∀ e ∈ [bare, two], e.IsOneLine) ∧ two ≠ one ∧
      (ofEntries [two, bare]).selectors = 2 ∧
      (ofEntries [two, bare]).text = (ofEntries [one, bare]).text ∧
      (ofEntries [two, bare]).text ≠ (ofEntries [bare, two]).text := by
  intro selectors two one bare
  have hselectors : ∀ selector ∈ selectors, '\n' ∉ selector.toList := by decide
  have hbare : bare.IsOneLine := nofun
  have htwo : ∀ e ∈ [two, bare], e.IsOneLine := by simpa using ⟨hselectors, hbare⟩
  have hone : ∀ e ∈ [one, bare], e.IsOneLine := by simpa using ⟨hselectors, hbare⟩
  have hswapped : ∀ e ∈ [bare, two], e.IsOneLine := by simpa using ⟨hbare, hselectors⟩
  obtain ⟨hcount, hread⟩ := ofEntries_laws.2 [two, bare]
  obtain ⟨-, -, htext⟩ := hread htwo
  refine ⟨htwo, hone, hswapped, by decide, hcount, (htext _ hone).2 ?_, fun hsame => ?_⟩
  · exact .cons ⟨rfl, by decide +kernel, rfl⟩ (.cons ⟨rfl, rfl, rfl⟩ .nil)
  · cases (htext _ hswapped).1 hsame with
    | cons hfirst => exact absurd hfirst.selectors (by decide)

end AdFilter
