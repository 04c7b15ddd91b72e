import AdFilter.Glob.Source
import AdFilter.Proofs.Glob.Pieces
import AdFilter.Proofs.Regex.Reader
import AdFilter.Proofs.Text.Utf8

/-!
# The text of an expression is read as its pattern was meant

What a character of a pattern writes is read, in any surroundings, as the items of the piece that the
character stands for (`reads_written`), so the text of the whole is read as the items of all pieces
(`read_source`): no character of a pattern goes on with what another one wrote.
-/

namespace AdFilter.Glob

open Regex

/-! ## What a piece is read as -/

/-- The characters that are no separators. -/
def plainRanges : List (Char × Char) :=
  [('a', 'z'), ('A', 'Z'), ('0', '9'), ('_', '_'), ('.', '.'), ('%', '%'), ('-', '-')]

/-- The items that a separator stands for. -/
def separatorItem (first last : Bool) : Item :=
  .group (.plain []) ((if first then [[.textStart]] else []) ++ [[.oneOf true plainRanges]] ++
    (if last then [[.textEnd]] else []))

def hostItem : Item :=
  .group (.plain []) [[.repeated (.oneOf true [(':', ':')]) .atLeastOne false,
    .char ':', .char '/', .char '/',
    .repeated (.group (.plain []) [[.repeated (.oneOf true [('/', '/')]) .atLeastOne false,
      .char '.']]) .atMostOne false]]

/-- The items that a piece of a pattern stands for. -/
def Piece.items : Piece → List Item
  | .char c => [.char c]
  | .wildcard => [.repeated .any .anyNumber false]
  | .separator first last => [separatorItem first last]
  | .bar first last => (if last then [.textEnd] else []) ++ (if first then [.textStart] else [])
  | .hostBar last => (if last then [.textEnd] else []) ++ [hostItem]

def itemsAt (pattern : List Char) (place : Char × Nat) : List Item :=
  (pieceAt pattern place.2 place.1).items

theorem flatMap_itemsAt (pattern : List Char) :
    pattern.zipIdx.flatMap (itemsAt pattern) = (pieces pattern).flatMap Piece.items := by
  rw [pieces_eq_zipIdx, List.flatMap_map]
  rfl

theorem reads_separator (first last : Bool) :
    Reads (['(', '?', ':'] ++ (if first then ['^', '|'] else []) ++ separatorClass ++
      (if last then ['|', '$'] else []) ++ [')']) [separatorItem first last] := by
  refine reads_cons (by decide) fun r => ⟨.between, rfl, ?_⟩
  cases first <;> cases last <;> rfl

theorem reads_hostLead : Reads hostLead [hostItem] :=
  reads_cons (by decide) fun _ => ⟨.between, rfl, rfl⟩

theorem reads_textEnd (last : Bool) :
    Reads (if last then ['$'] else []) (if last then [.textEnd] else []) := by
  cases last with
  | false => exact reads_nil
  | true => exact reads_cons (by decide) fun _ => ⟨.between, rfl, rfl⟩

theorem reads_textStart (first : Bool) :
    Reads (if first then ['^'] else []) (if first then [.textStart] else []) := by
  cases first with
  | false => exact reads_nil
  | true => exact reads_cons (by decide) fun _ => ⟨.between, rfl, rfl⟩

theorem reads_wildcard : Reads ['.', '*'] [.repeated .any .anyNumber false] :=
  reads_cons (by decide) fun _ => ⟨.repeated, rfl, rfl⟩

theorem reads_caselessFlag (matchCase : Bool) :
    Reads (if matchCase then [] else caselessFlag) (if matchCase then [] else [.flags ['i']]) := by
  cases matchCase with
  | false => exact reads_cons (by decide) fun _ => ⟨.between, rfl, rfl⟩
  | true => exact reads_nil

/-! ## What a pattern writes -/

theorem length_utf8_eq_zero_iff {s : List Char} : (Text.utf8 s).length = 0 ↔ s.length = 0 := by
  rw [List.length_eq_zero_iff, List.length_eq_zero_iff, Text.utf8_eq_nil_iff]

section
variable {pattern before rest : List Char} {c : Char}

/-- A character of one byte stands at the last byte of a pattern exactly if nothing follows it. -/
theorem place_eq_last_iff (h : pattern = before ++ c :: rest) (hc : c.utf8Size = 1) :
    (Text.utf8 before).length = (Text.utf8 pattern).length - 1 ↔
      before.length + 1 = pattern.length := by
  have hrest := length_utf8_eq_zero_iff (s := rest)
  rw [h, Text.utf8_append, Text.utf8_cons]
  simp only [List.length_append, List.length_cons, String.length_utf8EncodeChar, hc]
  omega

theorem place_eq_one_iff (h : pattern = before ++ '|' :: rest) :
    (Text.utf8 before).length = 1 ∧ ['|', '|'].isPrefixOf pattern = true ↔
      before.length = 1 ∧ pattern.head? = some '|' := by
  subst h
  match before with
  | [] => simp [Text.utf8_nil]
  | [d] =>
    constructor
    · rintro ⟨-, hbars⟩
      obtain rfl : '|' = d := by simpa using hbars
      exact ⟨rfl, rfl⟩
    · rintro ⟨-, hd⟩
      cases hd
      exact ⟨rfl, rfl⟩
  | d :: e :: before =>
    have hsize : 2 ≤ (Text.utf8 (d :: e :: before)).length := by
      have hd := Char.utf8Size_pos d
      have he := Char.utf8Size_pos e
      simp [Text.utf8_cons]
      omega
    constructor
    · rintro ⟨hone, -⟩
      omega
    · rintro ⟨hone, -⟩
      simp at hone

/-- What a bar writes is read as what it means at its place. -/
theorem reads_written_bar (h : pattern = before ++ '|' :: rest) :
    Reads (written (['|', '|'].isPrefixOf pattern) ((Text.utf8 pattern).length - 1)
      (Text.utf8 before).length '|') (pieceAt pattern before.length '|').items := by
  have hwritten : written (['|', '|'].isPrefixOf pattern) ((Text.utf8 pattern).length - 1)
        (Text.utf8 before).length '|' =
      (if before.length + 1 = pattern.length then ['$'] else []) ++
        (if before.length = 0 then ['^'] else []) ++
          (if before.length = 1 ∧ pattern.head? = some '|' then hostLead else []) := by
    rw [written, if_neg (by decide), if_neg (by decide), if_pos rfl]
    simp only [length_utf8_eq_zero_iff, place_eq_last_iff h rfl, place_eq_one_iff h]
  rw [hwritten]
  by_cases hhost : before.length = 1 ∧ pattern.head? = some '|'
  · have hpiece : pieceAt pattern before.length '|' =
        .hostBar (before.length + 1 == pattern.length) := if_pos ⟨rfl, hhost⟩
    have hfirst : before.length ≠ 0 := by omega
    rw [hpiece, if_pos hhost, if_neg hfirst, List.append_nil]
    simpa [Piece.items] using
      (reads_textEnd (before.length + 1 == pattern.length)).append reads_hostLead
  · have hpiece : pieceAt pattern before.length '|' =
        .bar (before.length == 0) (before.length + 1 == pattern.length) := by
      simp [pieceAt, piece, hhost]
    rw [hpiece, if_neg hhost, List.append_nil]
    simpa [Piece.items] using (reads_textEnd (before.length + 1 == pattern.length)).append
      (reads_textStart (before.length == 0))

/-- What a character writes is read as the items of its piece, whatever stands around it. -/
theorem reads_written (h : pattern = before ++ c :: rest) :
    Reads (written (['|', '|'].isPrefixOf pattern) ((Text.utf8 pattern).length - 1)
      (Text.utf8 before).length c) (itemsAt pattern (c, before.length)) := by
  unfold itemsAt
  by_cases hsep : c = '^'
  · subst hsep
    have hpiece : pieceAt pattern before.length '^' =
        .separator (before.length == 0) (before.length + 1 == pattern.length) := by
      simp [pieceAt, piece]
    rw [hpiece, written, if_pos rfl]
    simp only [length_utf8_eq_zero_iff, place_eq_last_iff h rfl]
    simpa [Piece.items] using
      reads_separator (before.length == 0) (before.length + 1 == pattern.length)
  · by_cases hbar : c = '|'
    · subst hbar
      exact reads_written_bar h
    · by_cases hwild : c = '*'
      · subst hwild
        have hpiece : pieceAt pattern before.length '*' = .wildcard := by simp [pieceAt, piece]
        rw [hpiece, written, if_neg hsep, if_pos rfl]
        exact reads_wildcard
      · have hpiece : pieceAt pattern before.length c = .char c := by
          simp [pieceAt, piece, hsep, hbar, hwild]
        rw [hpiece, written, if_neg hsep, if_neg hwild, if_neg hbar]
        exact reads_escape c

/-- What some characters of a pattern write falls apart into what each of them is read from. -/
theorem exists_texts_of_writtenFrom (h : pattern = before ++ rest) :
    ∃ texts : List (List Char),
      writtenFrom (['|', '|'].isPrefixOf pattern) ((Text.utf8 pattern).length - 1)
        (Text.utf8 before).length rest = texts.flatten ∧
      List.Forall₂ (fun place text => Reads text (itemsAt pattern place))
        (rest.zipIdx before.length) texts := by
  induction rest generalizing before with
  | nil => exact ⟨[], rfl, .nil⟩
  | cons c rest ih =>
    have hplace : (Text.utf8 before).length + c.utf8Size = (Text.utf8 (before ++ [c])).length := by
      simp [Text.utf8_append, Text.utf8_cons, Text.utf8_nil]
    have hrest : pattern = before ++ [c] ++ rest := by simp [h]
    obtain ⟨texts, hwritten, hreads⟩ := ih hrest
    refine ⟨_ :: texts, ?_, .cons (reads_written h) ?_⟩
    · rw [writtenFrom, hplace, hwritten, List.flatten_cons]
    · simpa using hreads

end

theorem source?_eq_none_iff {pattern : String} {matchCase : Bool} :
    source? pattern matchCase = none ↔ pattern.toList.any isSpecial = false := by
  rw [source?]
  split
  · next h => simp [h]
  · next h => simpa using h

theorem exists_texts_of_source? {pattern : String} {matchCase : Bool} {source : String}
    (h : source? pattern matchCase = some source) :
    ∃ texts : List (List Char),
      source.toList = (if matchCase then [] else caselessFlag) ++ texts.flatten ∧
      List.Forall₂ (fun place text => Reads text (itemsAt pattern.toList place))
        pattern.toList.zipIdx texts := by
  rw [source?] at h
  split at h
  · have hpattern : pattern.toList = [] ++ pattern.toList := rfl
    obtain ⟨texts, hwritten, hreads⟩ := exists_texts_of_writtenFrom hpattern
    rw [Text.length_utf8_toList] at hwritten
    refine ⟨texts, ?_, hreads⟩
    rw [← hwritten, ← Option.some.inj h, String.toList_ofList]
    rfl
  · cases h

theorem read_of_source? {pattern : String} {matchCase : Bool} {source : String}
    (h : source? pattern matchCase = some source) :
    read source.toList = some [(if matchCase then [] else [.flags ['i']]) ++
      (pieces pattern.toList).flatMap Piece.items] := by
  obtain ⟨texts, hsource, hreads⟩ := exists_texts_of_source? h
  rw [hsource, ← flatMap_itemsAt]
  exact ((reads_caselessFlag matchCase).append (Reads.flatten hreads)).read_eq

/-- An expression is written exactly for patterns with a special character. It is read as one branch:
the flag if case does not matter, and behind it the items of the characters of the pattern, in their
order and each for its place. What a single character writes is read as its items wherever it stands
between two items, and leaves nothing open, closed or repeated. -/
theorem read_source (pattern : String) (matchCase : Bool) :
    (source? pattern matchCase = none ↔ ∀ c ∈ pattern.toList, c ≠ '^' ∧ c ≠ '*' ∧ c ≠ '|') ∧
    ∀ source, source? pattern matchCase = some source →
      read source.toList = some [(if matchCase then [] else [.flags ['i']]) ++
        pattern.toList.zipIdx.flatMap (itemsAt pattern.toList)] ∧
      ∃ texts : List (List Char),
        source.toList = (if matchCase then [] else ['(', '?', 'i', ')']) ++ texts.flatten ∧
        List.Forall₂ (fun place text => Reads text (itemsAt pattern.toList place))
          pattern.toList.zipIdx texts := by
  constructor
  · rw [source?_eq_none_iff]
    simp [isSpecial, and_assoc]
  · intro source hsource
    refine ⟨?_, exists_texts_of_source? hsource⟩
    rw [flatMap_itemsAt]
    exact read_of_source? hsource

/-- A question mark behind a wildcard and braces behind a separator repeat nothing. -/
theorem read_source_borders :
    ∃ source, source? "*?^\x7b2\x7d" true = some source ∧
      read source.toList = some [[.repeated .any .anyNumber false, .char '?',
        separatorItem false false, .char '\x7b', .char '2', .char '\x7d']] := by
  obtain ⟨hnone, hread⟩ := read_source "*?^\x7b2\x7d" true
  have hsome : source? "*?^\x7b2\x7d" true ≠ none := mt hnone.1 (by simp)
  obtain ⟨source, hsource⟩ := Option.ne_none_iff_exists'.1 hsome
  exact ⟨source, hsource, (hread source hsource).1⟩

end AdFilter.Glob
