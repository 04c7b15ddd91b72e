import AdFilter.Hide.Stylesheet
import AdFilter.Proofs.Text.Quoted
import Mathlib.Data.List.Flatten
import Mathlib.Data.List.Forall2

/-!
# Reading a stylesheet back

A stylesheet is cut into lines at the line feeds, and its lines into blocks at the empty ones. The
first line of a block is the scope of an entry and the others are its selectors, so whatever the
selectors look like, the blocks of a stylesheet are those of its entries (`blocksOf_stylesheet`).
-/

namespace AdFilter.HideEntry

/-- The selectors of the entry stand on one line each. -/
def IsOneLine (e : HideEntry) : Prop :=
  ∀ selector ∈ e.selectors, '\n' ∉ selector.toList

/-- What hides the elements that the selector in front of it picks. -/
def ruleBody : List Char :=
  "\x7bdisplay: none !important;\x7d".toList

/-! The texts of a header around the two that it quotes. -/

def headerOpening : List Char :=
  "/* domains: ".toList

def headerMiddle : List Char :=
  ", exclude: ".toList

def headerClosing : List Char :=
  " */".toList

/-- The scope of the entry, as the line before its selectors tells it. -/
def headerLine (e : HideEntry) : List Char :=
  headerOpening ++ (Text.quotedChars (toString e.scope.domains).toList ++
    (headerMiddle ++ (Text.quotedChars (toString e.scope.exclude).toList ++ headerClosing)))

def selectorLine (selector : String) : List Char :=
  selector.toList ++ ruleBody

/-- The lines of an entry, without the empty one behind them. -/
def block (e : HideEntry) : List (List Char) :=
  e.headerLine :: e.selectors.map selectorLine

def linesOf (entries : List HideEntry) : List (List Char) :=
  entries.flatMap fun e => e.block ++ [[]]

/-! ## Lines -/

theorem toList_header (e : HideEntry) : e.header.toList = e.headerLine ++ ['\n'] := by
  have hend : " */\n".toList = headerClosing ++ ['\n'] := rfl
  unfold header headerLine
  rw [String.toList_append, hend]
  unfold headerOpening headerMiddle
  generalize "/* domains: " = opening, ", exclude: " = middle at *
  simp only [String.toList_append, Text.quoted, String.toList_ofList, List.append_assoc]

theorem toList_css (e : HideEntry) : e.css.toList = (e.block ++ [[]]).flatMap (· ++ ['\n']) := by
  have hbody : declaration.toList = ruleBody ++ ['\n'] := rfl
  have hselector : ∀ selector : String,
      (selector ++ declaration).toList = selectorLine selector ++ ['\n'] := fun selector => by
    rw [String.toList_append, hbody, selectorLine, List.append_assoc]
  rw [css, block, List.cons_append, List.flatMap_cons, List.flatMap_append, List.flatMap_map,
    ← toList_header, String.toList_append, String.toList_append, String.toList_join,
    List.flatMap_map, List.append_assoc]
  simp only [hselector]
  rfl

theorem toList_stylesheet (entries : List HideEntry) :
    (stylesheet entries).toList = (linesOf entries).flatMap (· ++ ['\n']) := by
  rw [stylesheet, String.toList_join, List.flatMap_map, linesOf, List.flatMap_assoc]
  simp only [toList_css]

theorem newline_not_mem_headerLine (e : HideEntry) : '\n' ∉ e.headerLine := by
  have hopening : '\n' ∉ headerOpening := by decide
  have hmiddle : '\n' ∉ headerMiddle := by decide
  have hclosing : '\n' ∉ headerClosing := by decide
  simp only [headerLine, List.mem_append, not_or]
  exact ⟨hopening, Text.newline_not_mem_quotedChars _, hmiddle,
    Text.newline_not_mem_quotedChars _, hclosing⟩

theorem IsOneLine.newline_not_mem_block {e : HideEntry} (h : e.IsOneLine) :
    ∀ line ∈ e.block, '\n' ∉ line := by
  intro line hline
  rcases List.mem_cons.1 hline with rfl | hline
  · exact newline_not_mem_headerLine e
  · obtain ⟨selector, hselector, rfl⟩ := List.mem_map.1 hline
    have hbody : '\n' ∉ ruleBody := by decide
    exact List.not_mem_append (h selector hselector) hbody

theorem ne_nil_of_mem_block {e : HideEntry} : ∀ line ∈ e.block, line ≠ [] := by
  intro line hline
  rcases List.mem_cons.1 hline with rfl | hline
  · exact List.append_ne_nil_of_left_ne_nil (by decide) _
  · obtain ⟨selector, -, rfl⟩ := List.mem_map.1 hline
    exact List.append_ne_nil_of_right_ne_nil _ (by decide)

section
variable {entries : List HideEntry}

/-- The line feeds of a stylesheet are those at the ends of its lines. -/
theorem split_stylesheet (h : ∀ e ∈ entries, e.IsOneLine) :
    Text.split (· == '\n') (stylesheet entries).toList = linesOf entries ++ [[]] := by
  rw [toList_stylesheet]
  refine Text.split_flatMap_concat (p := (· == '\n')) rfl fun line hline c hc => ?_
  obtain ⟨e, he, hline⟩ := List.mem_flatMap.1 hline
  rw [beq_eq_false_iff_ne]
  rintro rfl
  rcases List.mem_append.1 hline with hline | hline
  · exact (h e he).newline_not_mem_block line hline hc
  · rw [List.mem_singleton.1 hline] at hc
    cases hc

/-! ## Blocks -/

/-- The blocks of a stylesheet: its lines, cut at the empty ones. -/
def blocksOf (sheet : List Char) : List (List (List Char)) :=
  (Text.split List.isEmpty (Text.split (· == '\n') sheet).dropLast).dropLast

theorem linesOf_eq (entries : List HideEntry) :
    linesOf entries = (entries.map block).flatMap (· ++ [[]]) := by
  rw [linesOf, List.flatMap_map]

theorem blocksOf_stylesheet (h : ∀ e ∈ entries, e.IsOneLine) :
    blocksOf (stylesheet entries).toList = entries.map block := by
  have hcut : Text.split List.isEmpty (linesOf entries) = entries.map block ++ [[]] := by
    rw [linesOf_eq]
    refine Text.split_flatMap_concat rfl fun lines hlines line hline => ?_
    obtain ⟨e, -, rfl⟩ := List.mem_map.1 hlines
    rw [List.isEmpty_eq_false_iff]
    exact ne_nil_of_mem_block line hline
  rw [blocksOf, split_stylesheet h, List.dropLast_concat, hcut, List.dropLast_concat]

/-- The entries have the same selectors in the same order, and their scopes are written alike. -/
structure IsWrittenAs (a b : HideEntry) : Prop where
  selectors : a.selectors = b.selectors
  domains : toString a.scope.domains = toString b.scope.domains
  exclude : toString a.scope.exclude = toString b.scope.exclude

theorem headerLine_inj {a b : HideEntry} : a.headerLine = b.headerLine ↔
    toString a.scope.domains = toString b.scope.domains ∧
      toString a.scope.exclude = toString b.scope.exclude := by
  constructor
  · intro h
    rw [headerLine, headerLine, List.append_right_inj] at h
    obtain ⟨hdomains, hrest⟩ := Text.quotedChars_append_inj h
    rw [List.append_right_inj] at hrest
    obtain ⟨hexclude, -⟩ := Text.quotedChars_append_inj hrest
    exact ⟨String.toList_inj.1 hdomains, String.toList_inj.1 hexclude⟩
  · rintro ⟨hdomains, hexclude⟩
    rw [headerLine, hdomains, hexclude, headerLine]

theorem block_inj {a b : HideEntry} : a.block = b.block ↔ a.IsWrittenAs b := by
  have hselector : Function.Injective selectorLine := fun _ _ h =>
    String.toList_inj.1 (List.append_cancel_right h)
  rw [block, block, List.cons.injEq, headerLine_inj, List.map_inj_right hselector]
  exact ⟨fun ⟨⟨hdomains, hexclude⟩, hselectors⟩ => ⟨hselectors, hdomains, hexclude⟩,
    fun h => ⟨⟨h.domains, h.exclude⟩, h.selectors⟩⟩

theorem stylesheet_eq_iff {others : List HideEntry} (h : ∀ e ∈ entries, e.IsOneLine)
    (hothers : ∀ e ∈ others, e.IsOneLine) :
    stylesheet entries = stylesheet others ↔ List.Forall₂ IsWrittenAs entries others := by
  have hwritten : List.Forall₂ IsWrittenAs entries others ↔
      entries.map block = others.map block := by
    rw [← List.forall₂_eq_eq_eq, List.forall₂_map_left_iff, List.forall₂_map_right_iff]
    simp only [block_inj]
  rw [hwritten]
  constructor
  · intro hsheet
    rw [← blocksOf_stylesheet h, hsheet, blocksOf_stylesheet hothers]
  · intro hblocks
    rw [← String.toList_inj, toList_stylesheet, toList_stylesheet, linesOf_eq, hblocks, ← linesOf_eq]

/-! ## Selectors -/

theorem isSuffixOf_headerLine (e : HideEntry) : ruleBody.isSuffixOf e.headerLine = false := by
  have hlast : e.headerLine.getLast? = some '/' := by
    simp only [headerLine, List.getLast?_append]
    rfl
  rw [← Bool.not_eq_true, List.isSuffixOf_iff_suffix]
  rintro ⟨front, hfront⟩
  have hbody : ruleBody.getLast? = some '\x7d' := by decide
  rw [← hfront, List.getLast?_append, hbody] at hlast
  simp at hlast

theorem countP_block (e : HideEntry) :
    (e.block ++ [[]]).countP (ruleBody.isSuffixOf ·) = e.selectors.length := by
  have hselectors : ∀ line ∈ e.selectors.map selectorLine, ruleBody.isSuffixOf line = true := by
    intro line hline
    obtain ⟨selector, -, rfl⟩ := List.mem_map.1 hline
    exact List.isSuffixOf_iff_suffix.2 (List.suffix_append _ _)
  rw [block, List.cons_append, List.countP_cons_of_neg (by simp [isSuffixOf_headerLine]),
    List.countP_append, List.countP_eq_length.2 hselectors, List.length_map]
  rfl

theorem countP_linesOf (entries : List HideEntry) :
    (linesOf entries).countP (ruleBody.isSuffixOf ·) = selectorCount entries := by
  rw [linesOf, List.countP_flatMap, selectorCount, List.length_flatMap]
  exact congrArg List.sum (List.map_congr_left fun e _ => countP_block e)

end

end AdFilter.HideEntry
