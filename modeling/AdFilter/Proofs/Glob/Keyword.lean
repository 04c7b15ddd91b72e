import AdFilter.Glob.Keyword
import AdFilter.Pattern
import AdFilter.Proofs.Fingerprint
import AdFilter.Proofs.Glob.Places
import AdFilter.Proofs.Text.Split
import Mathlib.Data.List.Forall2

/-!
# Keywords in matched texts

The keyword of a pattern is a part of it that has no special character, so the pieces of the pattern
hold it letter by letter, and a text with the pattern has a factor that is equal to the keyword, but
for case where that does not matter (`exists_factor_of_search`).
-/

namespace AdFilter

namespace Glob

open Regex (Then then_congr then_assoc empty_then)

/-! ## The keyword in the pattern -/

theorem foldl_betterKeyword (runs : List (List Char)) (best : List Char) :
    runs.foldl betterKeyword best = best ∨ runs.foldl betterKeyword best ∈ runs := by
  induction runs generalizing best with
  | nil => exact .inl rfl
  | cons run runs ih =>
    rw [List.foldl_cons]
    rcases ih (betterKeyword best run) with h | h
    · rw [h, betterKeyword]
      split
      · exact .inr List.mem_cons_self
      · exact .inl rfl
    · exact .inr (List.mem_cons_of_mem _ h)

theorem keywordChars_eq_nil_or_mem (pattern : List Char) :
    keywordChars pattern = [] ∨ keywordChars pattern ∈ keywordRuns pattern :=
  foldl_betterKeyword _ _

theorem keywordChars_infix (pattern : List Char) : keywordChars pattern <:+: pattern := by
  rcases keywordChars_eq_nil_or_mem pattern with h | h
  · rw [h]
    exact List.nil_infix
  · exact Text.infix_of_mem_split h

theorem isKeywordChar_of_mem_keywordChars {pattern : List Char} {c : Char}
    (hc : c ∈ keywordChars pattern) : isKeywordChar c = true := by
  rcases keywordChars_eq_nil_or_mem pattern with h | h
  · rw [h] at hc
    cases hc
  · simpa using Text.not_of_mem_split h hc

theorem not_isSpecial_of {p : Char → Prop} (h : ¬p '^' ∧ ¬p '*' ∧ ¬p '|') {c : Char} (hc : p c) :
    isSpecial c = false := by
  obtain ⟨hsep, hwild, hbar⟩ := h
  rw [← Bool.not_eq_true]
  intro hspecial
  simp only [isSpecial, Bool.or_eq_true, beq_iff_eq] at hspecial
  rcases hspecial with (rfl | rfl) | rfl
  · exact hsep hc
  · exact hwild hc
  · exact hbar hc

theorem not_isSpecial_of_isKeywordChar {c : Char} (h : isKeywordChar c = true) :
    isSpecial c = false :=
  not_isSpecial_of (p := (isKeywordChar · = true)) (by decide) h

/-! ## Parts without special characters -/

theorem piece_of_not_isSpecial {first last : Bool} {c : Char} (h : isSpecial c = false) :
    piece first last c = .char c := by
  simp only [isSpecial, Bool.or_eq_false_iff, beq_eq_false_iff_ne] at h
  obtain ⟨⟨hsep, hwild⟩, hbar⟩ := h
  rw [piece, if_neg hsep, if_neg hwild, if_neg hbar]

theorem pieceAt_of_not_isSpecial {pattern : List Char} {i : Nat} {c : Char}
    (h : isSpecial c = false) : pieceAt pattern i c = .char c := by
  have hhost : ¬(c = '|' ∧ i = 1 ∧ pattern.head? = some '|') := by
    rintro ⟨rfl, -⟩
    cases h
  rw [pieceAt, if_neg hhost, piece_of_not_isSpecial h]

/-- The pieces of a part of a pattern that has no special character are its characters. -/
theorem exists_pieces_eq_append {pattern part : List Char} (hpart : part <:+: pattern)
    (h : ∀ c ∈ part, isSpecial c = false) :
    ∃ front rear, pieces pattern = front ++ part.map Piece.char ++ rear := by
  obtain ⟨left, right, rfl⟩ := hpart
  generalize hpattern : left ++ part ++ right = pattern
  have hpart : part.map Piece.char = ((pieces pattern).drop left.length).take part.length := by
    apply List.ext_getElem?
    intro i
    by_cases hi : i < part.length
    · have hchar : pattern[left.length + i]? = some part[i] := by
        rw [← hpattern, List.append_assoc, List.getElem?_append_right (Nat.le_add_right _ _),
          Nat.add_sub_cancel_left, List.getElem?_append_left hi, List.getElem?_eq_getElem hi]
      rw [List.getElem?_take_of_lt hi, List.getElem?_drop, getElem?_pieces, hchar, Option.map_some,
        pieceAt_of_not_isSpecial (h _ (List.getElem_mem hi)), List.getElem?_map,
        List.getElem?_eq_getElem hi, Option.map_some]
    · rw [List.getElem?_eq_none (by simp; omega), List.getElem?_eq_none (by simp; omega)]
  refine ⟨(pieces pattern).take left.length,
    ((pieces pattern).drop left.length).drop part.length, ?_⟩
  rw [hpart, List.append_assoc, List.take_append_drop, List.take_append_drop]

section
variable {matchCase : Bool}

theorem consumes_append_iff {ps qs : List Piece} {before mid after : List Char} :
    Consumes matchCase (ps ++ qs) before mid after ↔
      Then (Consumes matchCase ps) (Consumes matchCase qs) before mid after := by
  induction ps generalizing before mid after with
  | nil => exact empty_then.symm
  | cons p ps ih =>
    rw [List.cons_append]
    calc Consumes matchCase (p :: (ps ++ qs)) before mid after
      _ ↔ Then (p.Consumes matchCase) (Then (Consumes matchCase ps) (Consumes matchCase qs))
          before mid after := then_congr (fun _ _ _ => Iff.rfl) fun _ _ _ => ih
      _ ↔ Then (Consumes matchCase (p :: ps)) (Consumes matchCase qs) before mid after :=
        then_assoc.symm

theorem consumes_chars_iff {part before mid after : List Char} :
    Consumes matchCase (part.map Piece.char) before mid after ↔
      List.Forall₂ (SameChar matchCase) mid part := by
  induction part generalizing before mid with
  | nil => exact List.forall₂_nil_right_iff.symm
  | cons c part ih =>
    rw [List.map_cons, Consumes, List.forall₂_cons_right_iff]
    constructor
    · rintro ⟨_, right, rfl, ⟨d, rfl, hsame⟩, hrest⟩
      exact ⟨d, right, hsame, ih.1 hrest, rfl⟩
    · rintro ⟨d, right, hsame, hrest, rfl⟩
      exact ⟨[d], right, rfl, ⟨d, rfl, hsame⟩, ih.2 hrest⟩

theorem eq_of_consumes_chars {part before mid after : List Char}
    (h : Consumes matchCase (part.map Piece.char) before mid after) :
    mid.map Text.fold = part.map Text.fold ∧ (matchCase = true → mid = part) := by
  have hsame := consumes_chars_iff.1 h
  constructor
  · rw [← List.forall₂_eq_eq_eq, List.forall₂_map_left_iff, List.forall₂_map_right_iff]
    refine hsame.imp fun d c hdc => ?_
    rcases hdc with rfl | ⟨-, hfold⟩
    · rfl
    · exact hfold
  · intro hcase
    rw [← List.forall₂_eq_eq_eq]
    exact hsame.imp fun d c hdc => hdc.resolve_right (by simp [hcase])

/-- A text in which a pattern is found has a factor for every part of the pattern that has no special
character. -/
theorem exists_factor_of_search {pattern : String} {regex : Regex}
    (hregex : regex? pattern matchCase = some regex) {text : String}
    (hsearch : regex.search text = true) {part : List Char} (hpart : part <:+: pattern.toList)
    (h : ∀ c ∈ part, isSpecial c = false) :
    ∃ factor, factor <:+: text.toList ∧ factor.map Text.fold = part.map Text.fold ∧
      (matchCase = true → factor = part) := by
  obtain ⟨before, mid, after, htext, hmid⟩ := (search_iff_consumes hregex text).1 hsearch
  obtain ⟨front, rear, hpieces⟩ := exists_pieces_eq_append hpart h
  rw [hpieces, List.append_assoc] at hmid
  obtain ⟨left, _, rfl, -, hmid⟩ := consumes_append_iff.1 hmid
  obtain ⟨factor, right, rfl, hfactor, -⟩ := consumes_append_iff.1 hmid
  refine ⟨factor, ⟨before ++ left, right ++ after, ?_⟩, eq_of_consumes_chars hfactor⟩
  rw [htext]
  simp

end

end Glob

namespace Pattern

/-- A compiled pattern matches only where the keyword occurs: as it is written, if the pattern is
looked for as it stands or case matters, else but for case. -/
theorem exists_factor_of_isMatch {pattern request : String} {matchCase : Bool}
    (h : (compile pattern matchCase).isMatch request = true) :
    ∃ factor, factor <:+: request.toList ∧
      factor.map Text.fold = (Glob.keyword pattern).toList.map Text.fold ∧
      ((compile pattern matchCase).isLiteral = true ∨ matchCase = true →
        factor = (Glob.keyword pattern).toList) := by
  have hkeyword := Glob.keywordChars_infix pattern.toList
  have htoList : (Glob.keyword pattern).toList = Glob.keywordChars pattern.toList := by
    simp [Glob.keyword]
  rw [htoList]
  unfold compile at h ⊢
  cases hregex : Glob.regex? pattern matchCase with
  | none =>
    rw [hregex] at h
    have hpattern := (Fingerprint.occursIn_ofString pattern request).1 h
    exact ⟨_, hkeyword.trans hpattern, rfl, fun _ => rfl⟩
  | some regex =>
    rw [hregex] at h
    obtain ⟨factor, hfactor, hfold, heq⟩ := Glob.exists_factor_of_search hregex h hkeyword
      fun c hc => Glob.not_isSpecial_of_isKeywordChar (Glob.isKeywordChar_of_mem_keywordChars hc)
    refine ⟨factor, hfactor, hfold, ?_⟩
    rintro (hliteral | hcase)
    · cases hliteral
    · exact heq hcase

end Pattern

end AdFilter
