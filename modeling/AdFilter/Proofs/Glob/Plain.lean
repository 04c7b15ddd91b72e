import AdFilter.Proofs.Glob.Keyword

/-!
# Plain patterns

A pattern without special characters is looked for by its fingerprint, and with a wildcard at one of
its ends it writes an expression. Wildcards at the ends consume nothing that the pattern needs
(`search_iff_of_wildcards`), so the two ways of searching find it in the same texts if case matters, and
the expression finds no less if it does not.
-/

namespace AdFilter

namespace Glob

/-! ## Wildcards at the ends -/

/-- What a character stands for in a pattern without separators and bars. -/
def plainPiece (c : Char) : Piece :=
  if c = '*' then .wildcard else .char c

/-- Without separators and bars it makes no difference at which place a character stands. -/
theorem pieces_eq_map {pattern : List Char} (hsep : '^' ∉ pattern) (hbar : '|' ∉ pattern) :
    pieces pattern = pattern.map plainPiece := by
  apply List.ext_getElem?
  intro i
  rw [getElem?_pieces, List.getElem?_map]
  cases hc : pattern[i]? with
  | none => rfl
  | some c =>
    have hmem : c ∈ pattern := List.mem_of_getElem? hc
    have hcsep : c ≠ '^' := fun he => hsep (he ▸ hmem)
    have hcbar : c ≠ '|' := fun he => hbar (he ▸ hmem)
    simp [pieceAt, piece, plainPiece, hcsep, hcbar]

theorem pieces_of_wildcards {part : List Char} (h : ∀ c ∈ part, isSpecial c = false) (m n : Nat) :
    pieces (List.replicate m '*' ++ part ++ List.replicate n '*') =
      List.replicate m .wildcard ++ part.map Piece.char ++ List.replicate n .wildcard := by
  have hnot : ∀ special, isSpecial special = true → special ≠ '*' →
      special ∉ List.replicate m '*' ++ part ++ List.replicate n '*' := by
    intro special hspecial hne hmem
    simp only [List.mem_append, List.mem_replicate, hne, and_false, or_false, false_or] at hmem
    rw [h special hmem] at hspecial
    cases hspecial
  have hpart : part.map plainPiece = part.map Piece.char := by
    apply List.map_congr_left
    intro c hc
    have hstar : c ≠ '*' := by
      rintro rfl
      cases h '*' hc
    rw [plainPiece, if_neg hstar]
  rw [pieces_eq_map (hnot '^' rfl (by decide)) (hnot '|' rfl (by decide)), List.map_append,
    List.map_append, List.map_replicate, List.map_replicate, hpart]
  rfl

section
variable {matchCase : Bool}

theorem consumes_wildcards_nil (n : Nat) (before after : List Char) :
    Consumes matchCase (List.replicate n .wildcard) before [] after := by
  induction n generalizing before with
  | zero => rfl
  | succ n ih => exact ⟨[], [], rfl, List.not_mem_nil, ih _⟩

/-- Between wildcards, a part of a pattern is found where a factor of the text is equal to it. -/
theorem search_iff_of_wildcards {pattern : String} {part : List Char} {m n : Nat}
    (hpattern : pattern.toList = List.replicate m '*' ++ part ++ List.replicate n '*')
    (hpart : ∀ c ∈ part, isSpecial c = false) {regex : Regex}
    (hregex : regex? pattern matchCase = some regex) (text : String) :
    regex.search text = true ↔
      ∃ factor, factor <:+: text.toList ∧ List.Forall₂ (SameChar matchCase) factor part := by
  rw [search_iff_consumes hregex, hpattern, pieces_of_wildcards hpart]
  constructor
  · rintro ⟨before, mid, after, htext, hmid⟩
    obtain ⟨_, right, rfl, hleft, -⟩ := consumes_append_iff.1 hmid
    obtain ⟨left, factor, rfl, -, hfactor⟩ := consumes_append_iff.1 hleft
    refine ⟨factor, ⟨before ++ left, right ++ after, ?_⟩, consumes_chars_iff.1 hfactor⟩
    rw [htext]
    simp
  · rintro ⟨factor, ⟨before, after, htext⟩, hfactor⟩
    refine ⟨before, factor, after, htext.symm, consumes_append_iff.2 ⟨factor, [], ?_, ?_, ?_⟩⟩
    · rw [List.append_nil]
    · refine consumes_append_iff.2 ⟨[], factor, rfl, consumes_wildcards_nil m _ _, ?_⟩
      exact consumes_chars_iff.2 hfactor
    · exact consumes_wildcards_nil n _ _

theorem forall₂_sameChar_self (part : List Char) : List.Forall₂ (SameChar matchCase) part part :=
  List.forall₂_same.2 fun _ _ => .inl rfl

end

/-- Where case matters, the factor is the part itself. -/
theorem search_iff_infix_of_wildcards {pattern : String} {part : List Char} {m n : Nat}
    (hpattern : pattern.toList = List.replicate m '*' ++ part ++ List.replicate n '*')
    (hpart : ∀ c ∈ part, isSpecial c = false) {regex : Regex}
    (hregex : regex? pattern true = some regex) (text : String) :
    regex.search text = true ↔ part <:+: text.toList := by
  rw [search_iff_of_wildcards hpattern hpart hregex]
  constructor
  · rintro ⟨factor, hfactor, hsame⟩
    have heq : factor = part := by
      rw [← List.forall₂_eq_eq_eq]
      exact hsame.imp fun c d hcd => hcd.resolve_right (by simp)
    exact heq ▸ hfactor
  · intro hpart
    exact ⟨part, hpart, forall₂_sameChar_self part⟩

end Glob

namespace Pattern

open Glob (IsExpressionOf isSpecial)

/-- The two ways of searching for a plain pattern agree: by its fingerprint, and by the expression that
it writes with a wildcard behind it or in front of it. -/
theorem isMatch_literal_iff_search {pattern : String}
    (h : ∀ c ∈ pattern.toList, c ≠ '^' ∧ c ≠ '*' ∧ c ≠ '|') :
    (∀ matchCase, compile pattern matchCase = literal (Fingerprint.ofString pattern)) ∧
    ∃ behind inFront caseless,
      IsExpressionOf (pattern ++ "*") true behind ∧
      IsExpressionOf ("*" ++ pattern) true inFront ∧
      IsExpressionOf (pattern ++ "*") false caseless ∧
      ∀ text : String,
        ((literal (Fingerprint.ofString pattern)).isMatch text = true ↔
          behind.search text = true) ∧
        ((literal (Fingerprint.ofString pattern)).isMatch text = true ↔
          inFront.search text = true) ∧
        ((literal (Fingerprint.ofString pattern)).isMatch text = true →
          caseless.search text = true) := by
  have hplain : ∀ c ∈ pattern.toList, isSpecial c = false := by
    intro c hc
    simpa [isSpecial, and_assoc] using h c hc
  have hbehind : (pattern ++ "*").toList =
      List.replicate 0 '*' ++ pattern.toList ++ List.replicate 1 '*' := by simp
  have hinFront : ("*" ++ pattern).toList =
      List.replicate 1 '*' ++ pattern.toList ++ List.replicate 0 '*' := by simp
  have hspecial : (pattern ++ "*").toList.any isSpecial = true := by simp [isSpecial]
  have hspecial' : ("*" ++ pattern).toList.any isSpecial = true := by simp [isSpecial]
  obtain ⟨behind, hregexBehind⟩ := Glob.exists_regex? hspecial true
  obtain ⟨inFront, hregexInFront⟩ := Glob.exists_regex? hspecial' true
  obtain ⟨caseless, hregexCaseless⟩ := Glob.exists_regex? hspecial false
  refine ⟨fun matchCase => ?_, behind, inFront, caseless, Glob.regex?_eq_some_iff.1 hregexBehind,
    Glob.regex?_eq_some_iff.1 hregexInFront, Glob.regex?_eq_some_iff.1 hregexCaseless,
    fun text => ?_⟩
  · rw [compile, Glob.regex?_eq_none (by simpa using hplain)]
  · have hliteral : (literal (Fingerprint.ofString pattern)).isMatch text = true ↔
        pattern.toList <:+: text.toList := Fingerprint.occursIn_ofString pattern text
    rw [hliteral]
    refine ⟨?_, ?_, fun hinfix => ?_⟩
    · exact (Glob.search_iff_infix_of_wildcards hbehind hplain hregexBehind text).symm
    · exact (Glob.search_iff_infix_of_wildcards hinFront hplain hregexInFront text).symm
    · exact (Glob.search_iff_of_wildcards hbehind hplain hregexCaseless text).2
        ⟨_, hinfix, Glob.forall₂_sameChar_self _⟩

/-- Characters that mean something in an expression, and one of several bytes, behind a line feed. -/
theorem isMatch_literal_iff_search_escaped :
    (∀ c ∈ "ü.(a+\\".toList, c ≠ '^' ∧ c ≠ '*' ∧ c ≠ '|') ∧
      ∃ behind, IsExpressionOf "ü.(a+\\*" true behind ∧ behind.search "x\nü.(a+\\y" = true := by
  have hplain : ∀ c ∈ "ü.(a+\\".toList, c ≠ '^' ∧ c ≠ '*' ∧ c ≠ '|' := by
    simp
  obtain ⟨-, behind, _, _, hbehind, -, -, hagree⟩ := isMatch_literal_iff_search hplain
  refine ⟨hplain, behind, hbehind, ?_⟩
  rw [← (hagree "x\nü.(a+\\y").1]
  decide +kernel

end Pattern

end AdFilter
