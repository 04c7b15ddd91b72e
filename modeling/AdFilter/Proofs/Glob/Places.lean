import AdFilter.Pattern
import AdFilter.Proofs.Glob.Meaning

/-!
# An address pattern, place by place

`PlaceConsumes` says what the character at a place of a pattern consumes, looking at the pattern as it
is written and not at its pieces. The expression that a pattern writes is found in a text exactly where
there is a row of factors, one for each place (`regex_search_iff_places`).
-/

namespace AdFilter.Glob

/-- What the character at place `i` consumes: `mid`, in the text `before ++ mid ++ after`. -/
def PlaceConsumes (matchCase : Bool) (pattern : List Char) (i : Nat)
    (before mid after : List Char) : Prop :=
  match pattern[i]? with
  | none => False
  | some c =>
    if c = '*' then '\n' ∉ mid
    else if c = '|' then
      if i = 1 ∧ pattern.head? = some '|' then
        (i + 1 = pattern.length → mid ++ after = []) ∧ IsHostLead mid
      else
        mid = [] ∧ (i = 0 → before = []) ∧ (i + 1 = pattern.length → after = [])
    else if c = '^' then
      (∃ d, mid = [d] ∧ ¬IsPlain d ∧ (matchCase = false → d ≠ '\u017F' ∧ d ≠ '\u212A')) ∨
        (mid = [] ∧ (i = 0 ∧ before = [] ∨ i + 1 = pattern.length ∧ after = []))
    else ∃ d, mid = [d] ∧ (d = c ∨ (matchCase = false ∧ Text.fold d = Text.fold c))

theorem consumes_pieceAt_iff {matchCase : Bool} {pattern : List Char} {i : Nat} {c : Char}
    (hc : pattern[i]? = some c) {before mid after : List Char} :
    (pieceAt pattern i c).Consumes matchCase before mid after ↔
      PlaceConsumes matchCase pattern i before mid after := by
  unfold PlaceConsumes pieceAt piece
  rw [hc]
  by_cases hbar : c = '|'
  · subst hbar
    by_cases hhost : i = 1 ∧ pattern.head? = some '|'
    · simp [hhost, Piece.Consumes, and_comm]
    · simp [hhost, Piece.Consumes]
  · by_cases hwild : c = '*'
    · simp [hwild, Piece.Consumes]
    · by_cases hsep : c = '^'
      · simp [hsep, Piece.Consumes, isSeparator_iff]
      · simp [hbar, hwild, hsep, Piece.Consumes, SameChar]

/-! ## Factors -/

/-- Pieces consume a text one after the other when there is a factor of it for each of them. -/
theorem consumes_iff_factors {matchCase : Bool} {ps : List Piece} {before mid after : List Char} :
    Consumes matchCase ps before mid after ↔
      ∃ factors : List (List Char), mid = factors.flatten ∧ factors.length = ps.length ∧
        ∀ (i : Nat) p factor, ps[i]? = some p → factors[i]? = some factor →
          p.Consumes matchCase (before ++ (factors.take i).flatten) factor
            ((factors.drop (i + 1)).flatten ++ after) := by
  induction ps generalizing before mid with
  | nil =>
    constructor
    · rintro rfl
      exact ⟨[], rfl, rfl, by simp⟩
    · rintro ⟨factors, rfl, hlen, -⟩
      rw [List.length_eq_zero_iff.1 hlen]
      rfl
  | cons p ps ih =>
    constructor
    · rintro ⟨left, right, rfl, hleft, hright⟩
      obtain ⟨factors, rfl, hlen, hall⟩ := ih.1 hright
      refine ⟨left :: factors, rfl, by simp [hlen], ?_⟩
      intro i q factor hq hfactor
      cases i with
      | zero =>
        cases hq
        cases hfactor
        simpa using hleft
      | succ i => simpa using hall i q factor hq hfactor
    · rintro ⟨factors, rfl, hlen, hall⟩
      cases factors with
      | nil => simp at hlen
      | cons left factors =>
        refine ⟨left, factors.flatten, rfl, ?_, ih.2 ⟨factors, rfl, by simpa using hlen, ?_⟩⟩
        · simpa using hall 0 p left rfl rfl
        · intro i q factor hq hfactor
          simpa using hall (i + 1) q factor hq hfactor

theorem consumes_pieces_iff {matchCase : Bool} {pattern before mid after : List Char} :
    Consumes matchCase (pieces pattern) before mid after ↔
      ∃ factors : List (List Char), mid = factors.flatten ∧ factors.length = pattern.length ∧
        ∀ i factor, factors[i]? = some factor →
          PlaceConsumes matchCase pattern i (before ++ (factors.take i).flatten) factor
            ((factors.drop (i + 1)).flatten ++ after) := by
  rw [consumes_iff_factors, length_pieces]
  refine exists_congr fun factors => and_congr_right fun _ => and_congr_right fun hlen => ?_
  constructor
  · intro h i factor hfactor
    have hi : i < pattern.length := by
      rw [← hlen]
      exact (List.getElem?_eq_some_iff.1 hfactor).1
    have hc : pattern[i]? = some pattern[i] := List.getElem?_eq_getElem hi
    rw [← consumes_pieceAt_iff hc]
    exact h i _ factor (by rw [getElem?_pieces, hc]; rfl) hfactor
  · intro h i p factor hp hfactor
    rw [getElem?_pieces] at hp
    obtain ⟨c, hc, rfl⟩ := Option.map_eq_some_iff.1 hp
    exact (consumes_pieceAt_iff hc).2 (h i factor hfactor)

/-- A pattern with a special character writes a text that is read as an expression, and the expression
is found in a text exactly if there is a factor of the text that the places of the pattern consume from
left to right. -/
theorem regex_search_iff_places {pattern : String}
    (h : ∃ c ∈ pattern.toList, c = '^' ∨ c = '*' ∨ c = '|') (matchCase : Bool) :
    ∃ regex, IsExpressionOf pattern matchCase regex ∧
      Pattern.compile pattern matchCase = .glob regex ∧
      ∀ text : String, regex.search text = true ↔
        ∃ (before after : List Char) (factors : List (List Char)),
          text.toList = before ++ factors.flatten ++ after ∧
          factors.length = pattern.toList.length ∧
          ∀ i factor, factors[i]? = some factor →
            PlaceConsumes matchCase pattern.toList i (before ++ (factors.take i).flatten) factor
              ((factors.drop (i + 1)).flatten ++ after) := by
  have hspecial : pattern.toList.any isSpecial = true := by
    simpa [isSpecial, or_assoc] using h
  obtain ⟨regex, hregex⟩ := exists_regex? hspecial matchCase
  refine ⟨regex, regex?_eq_some_iff.1 hregex, by rw [Pattern.compile, hregex], fun text => ?_⟩
  rw [search_iff_consumes hregex]
  constructor
  · rintro ⟨before, mid, after, htext, hmid⟩
    obtain ⟨factors, rfl, hlen, hall⟩ := consumes_pieces_iff.1 hmid
    exact ⟨before, after, factors, htext, hlen, hall⟩
  · rintro ⟨before, after, factors, htext, hlen, hall⟩
    exact ⟨before, _, after, htext, consumes_pieces_iff.2 ⟨factors, rfl, hlen, hall⟩⟩

/-- The second bar consumes the scheme and a label, and the separator the last slash. -/
theorem regex_search_iff_places_host :
    (∃ c ∈ "||A^".toList, c = '^' ∨ c = '*' ∨ c = '|') ∧
      ∃ regex, IsExpressionOf "||A^" false regex ∧ regex.search "s://b.a/c" = true := by
  have hspecial : ∃ c ∈ "||A^".toList, c = '^' ∨ c = '*' ∨ c = '|' :=
    ⟨'|', by decide, .inr (.inr rfl)⟩
  obtain ⟨regex, hregex, -, hsearch⟩ := regex_search_iff_places hspecial false
  refine ⟨hspecial, regex, hregex, (hsearch _).2 ⟨[], ['c'],
    [[], ['s', ':', '/', '/', 'b', '.'], ['a'], ['/']], by decide, by decide, ?_⟩⟩
  intro i factor hfactor
  match i with
  | 0 =>
    cases hfactor
    simp [PlaceConsumes]
  | 1 =>
    cases hfactor
    have hlead : IsHostLead ['s', ':', '/', '/', 'b', '.'] :=
      ⟨['s'], ['b', '.'], rfl, by simp, by simp, .inr ⟨['b'], rfl, by simp, by simp⟩⟩
    simpa [PlaceConsumes] using hlead
  | 2 =>
    cases hfactor
    exact ⟨'a', rfl, .inr ⟨rfl, by decide⟩⟩
  | 3 =>
    cases hfactor
    exact .inl ⟨'/', rfl, by decide, by decide⟩
  | i + 4 => cases hfactor

end AdFilter.Glob
