import AdFilter.Proofs.Glob.Source
import AdFilter.Proofs.Regex.Search
import AdFilter.Proofs.Text.CaseFold

/-!
# The expression of an address pattern

The items that the text of a pattern is read as match what the pieces of the pattern consume
(`Piece.matches_items_iff`), so the expression of a pattern is found in a text exactly where its pieces
consume a factor of it (`search_iff_consumes`).
-/

namespace AdFilter.Glob

open Regex

/-! ## Classes of characters -/

theorem inRange_iff {caseless : Bool} {range : Char × Char} {c : Char}
    (h : range.2.toNat < 0xD800) :
    inRange caseless range c = true ↔ ∃ d, range.1.toNat ≤ d.toNat ∧ d.toNat ≤ range.2.toNat ∧
      (c = d ∨ (caseless = true ∧ Text.fold c = Text.fold d)) := by
  simp only [inRange, Bool.or_eq_true, Bool.and_eq_true, decide_eq_true_eq, List.any_eq_true,
    List.mem_range'_1, beq_iff_eq]
  constructor
  · rintro (⟨hlo, hhi⟩ | ⟨hcase, n, ⟨hlo, hhi⟩, hfold⟩)
    · exact ⟨c, hlo, hhi, .inl rfl⟩
    · have hn : (Char.ofNat n).toNat = n :=
        Text.toNat_ofNat_of_isValidChar (.inl (by omega))
      exact ⟨Char.ofNat n, by omega, by omega, .inr ⟨hcase, hfold.symm⟩⟩
  · rintro ⟨d, hlo, hhi, rfl | ⟨hcase, hfold⟩⟩
    · exact .inl ⟨hlo, hhi⟩
    · exact .inr ⟨hcase, d.toNat, ⟨hlo, by omega⟩, by rw [Char.ofNat_toNat, hfold]⟩

/-- The characters that do not separate: ASCII letters and digits, and four more. -/
def IsPlain (c : Char) : Prop :=
  c.isAlphanum = true ∨ c ∈ ['_', '.', '%', '-']

instance : DecidablePred IsPlain := fun _ =>
  inferInstanceAs (Decidable (_ ∨ _))

theorem IsPlain.ascii {c : Char} (h : IsPlain c) : c.toNat < 0x80 := by
  rcases h with h | h
  · exact Text.isAlphanum_ascii h
  · simp only [List.mem_cons, List.not_mem_nil, or_false] at h
    rcases h with rfl | rfl | rfl | rfl <;> decide

theorem isPlain_toLower {c : Char} (h : c.toNat < 0x80) : IsPlain c.toLower ↔ IsPlain c :=
  Text.forall_ascii (p := fun c => IsPlain c.toLower ↔ IsPlain c) (by decide) h

theorem isPlain_iff_mem_range {c : Char} :
    IsPlain c ↔ ∃ range ∈ plainRanges, range.1.toNat ≤ c.toNat ∧ c.toNat ≤ range.2.toNat := by
  by_cases hc : c.toNat < 0x80
  · exact Text.forall_ascii (p := fun c => IsPlain c ↔ ∃ range ∈ plainRanges,
      range.1.toNat ≤ c.toNat ∧ c.toNat ≤ range.2.toNat) (by decide) hc
  · refine iff_of_false (fun h => hc h.ascii) ?_
    rintro ⟨range, hrange, -, hle⟩
    have : ∀ range ∈ plainRanges, range.2.toNat < 0x80 := by decide
    have := this range hrange
    omega

theorem isSeparator_iff {matchCase : Bool} {c : Char} :
    IsSeparator matchCase c ↔
      ¬IsPlain c ∧ (matchCase = false → c ≠ '\u017F' ∧ c ≠ '\u212A') := by
  constructor
  · intro h
    refine ⟨fun hc => h c hc (.inl rfl), fun hcase => ⟨?_, ?_⟩⟩
    · rintro rfl
      exact h 's' (.inl (by decide)) (.inr ⟨hcase, by decide⟩)
    · rintro rfl
      exact h 'k' (.inl (by decide)) (.inr ⟨hcase, by decide⟩)
  · rintro ⟨hplain, hfar⟩ d hd (rfl | ⟨hcase, hfold⟩)
    · exact hplain hd
    · have hd : IsPlain d := hd
      rcases (Text.fold_eq_fold_ascii_iff hd.ascii).1 hfold with ⟨hc, hlower⟩ | ⟨hc, -⟩ | ⟨hc, -⟩
      · rw [← isPlain_toLower hc, hlower, isPlain_toLower hd.ascii] at hplain
        exact hplain hd
      · exact (hfar hcase).1 hc
      · exact (hfar hcase).2 hc

theorem accepts_outside_plainRanges {matchCase : Bool} {c : Char} :
    (Atom.oneOf true plainRanges (!matchCase)).accepts c = true ↔ IsSeparator matchCase c := by
  have hrange : ∀ range ∈ plainRanges, range.2.toNat < 0xD800 := by decide
  rw [Atom.accepts, Bool.true_bne, Bool.not_eq_true', ← Bool.not_eq_true, List.any_eq_true]
  constructor
  · intro h d hd hsame
    obtain ⟨range, hmem, hlo, hhi⟩ := isPlain_iff_mem_range.1 hd
    refine h ⟨range, hmem, (inRange_iff (hrange range hmem)).2 ⟨d, hlo, hhi, ?_⟩⟩
    simpa [SameChar] using hsame
  · rintro h ⟨range, hmem, hin⟩
    obtain ⟨d, hlo, hhi, hsame⟩ := (inRange_iff (hrange range hmem)).1 hin
    exact h d (isPlain_iff_mem_range.2 ⟨range, hmem, hlo, hhi⟩) (by simpa [SameChar] using hsame)

theorem accepts_outside_singleton {caseless : Bool} {c d : Char} (hd : d.toNat < 0x80)
    (hletter : d.isAlpha = false) :
    (Atom.oneOf true [(d, d)] caseless).accepts c = true ↔ c ≠ d := by
  rw [Atom.accepts, Bool.true_bne, Bool.not_eq_true', ← Bool.not_eq_true, List.any_eq_true]
  have hrange : (d, d).2.toNat < 0xD800 := by
    show d.toNat < 0xD800
    omega
  refine not_congr ?_
  simp only [List.mem_singleton, exists_eq_left, inRange_iff hrange]
  constructor
  · rintro ⟨e, hlo, hhi, hsame⟩
    have he : e = d := by
      rw [← Char.ofNat_toNat e, Nat.le_antisymm hhi hlo, Char.ofNat_toNat]
    subst he
    rcases hsame with rfl | ⟨-, hfold⟩
    · rfl
    · exact Text.eq_of_fold_eq_fold hd hletter hfold
  · rintro rfl
    exact ⟨c, Nat.le_refl _, Nat.le_refl _, .inl rfl⟩

theorem accepts_char_of_not_letter {caseless : Bool} {c d : Char} (hd : d.toNat < 0x80)
    (hletter : d.isAlpha = false) : (Atom.char d caseless).accepts c = true ↔ c = d := by
  simp only [Atom.accepts, Bool.or_eq_true, beq_iff_eq, Bool.and_eq_true]
  constructor
  · rintro (h | ⟨-, hfold⟩)
    · exact h
    · exact Text.eq_of_fold_eq_fold hd hletter hfold
  · exact .inl

/-! ## Items -/

/-- A branch matches what its items match one after the other, each under the flags behind the ones in
front of it. -/
theorem matches_branchPart_append {flags : Flags} {items others : List Item}
    {before mid after : List Char} :
    (branchPart flags (items ++ others)).Matches before mid after ↔
      Then (branchPart flags items).Matches
        (branchPart (items.foldl Flags.after flags) others).Matches before mid after := by
  induction items generalizing flags before mid after with
  | nil => exact empty_then.symm
  | cons item items ih =>
    rw [List.cons_append, List.foldl_cons]
    calc (branchPart flags (item :: (items ++ others))).Matches before mid after
      _ ↔ Then (item.part flags).Matches (Then (branchPart (flags.after item) items).Matches
          (branchPart (items.foldl Flags.after (flags.after item)) others).Matches)
            before mid after := then_congr (fun _ _ _ => Iff.rfl) fun _ _ _ => ih
      _ ↔ Then (branchPart flags (item :: items)).Matches
          (branchPart (items.foldl Flags.after (flags.after item)) others).Matches
            before mid after := then_assoc.symm

section
variable {matchCase : Bool} {flags : Flags} {before mid after : List Char}

theorem matches_singleton_iff {item : Item} :
    (branchPart flags [item]).Matches before mid after ↔
      (item.part flags).Matches before mid after := by
  simp [branchPart, Part.Matches]

/-- An item that matches only the empty factor, if it is there, in front of other items. -/
theorem matches_guard_iff {asked : Bool} {item : Item} {others : List Item}
    (holds : List Char → Prop) (hflags : flags.after item = flags)
    (hitem : ∀ left rest, (item.part flags).Matches before left rest ↔ left = [] ∧ holds rest) :
    (branchPart flags ((if asked then [item] else []) ++ others)).Matches before mid after ↔
      (asked = true → holds (mid ++ after)) ∧
        (branchPart flags others).Matches before mid after := by
  cases asked with
  | false => simp
  | true =>
    simp only [if_true, List.singleton_append, branchPart, Part.Matches, hitem, hflags]
    constructor
    · rintro ⟨_, right, rfl, ⟨rfl, hholds⟩, hothers⟩
      exact ⟨fun _ => hholds, by simpa using hothers⟩
    · rintro ⟨hholds, hothers⟩
      exact ⟨[], mid, rfl, ⟨rfl, hholds trivial⟩, by simpa using hothers⟩

/-! ## Pieces -/

theorem matches_textEnd_iff {left rest : List Char} (hflags : flags.multiLine = false) :
    (Item.textEnd.part flags).Matches before left rest ↔ left = [] ∧ rest = [] := by
  simp [Item.part, hflags, Part.Matches, Anchor.holds]

theorem matches_textStart_iff {left rest : List Char} (hflags : flags.multiLine = false) :
    (Item.textStart.part flags).Matches before left rest ↔ left = [] ∧ before = [] := by
  simp [Item.part, hflags, Part.Matches, Anchor.holds]

def patternFlags (matchCase : Bool) : Flags where
  caseless := !matchCase

theorem inside_plain (flags : Flags) : flags.inside (.plain []) = flags := by
  simp [Flags.inside, Flags.add]

/-- Where no branch sets flags for the ones behind it, a group matches what one of them does. -/
theorem matches_branchesPart_iff {branches : List (List Item)}
    (h : ∀ branch ∈ branches, branch.foldl Flags.after flags = flags) :
    (branchesPart flags branches).Matches before mid after ↔
      ∃ branch ∈ branches, (branchPart flags branch).Matches before mid after := by
  induction branches with
  | nil => simp [branchesPart, Part.Matches]
  | cons branch branches ih =>
    obtain ⟨hbranch, hbranches⟩ := List.forall_mem_cons.1 h
    simp only [branchesPart, Part.Matches, hbranch, ih hbranches, List.exists_mem_cons_iff]

theorem matches_separatorItem_iff {first last : Bool} :
    ((separatorItem first last).part (patternFlags matchCase)).Matches before mid after ↔
      (Piece.separator first last).Consumes matchCase before mid after := by
  have hflags : ∀ branch ∈ (if first then [[Item.textStart]] else []) ++
      [[.oneOf true plainRanges]] ++ (if last then [[Item.textEnd]] else []),
      branch.foldl Flags.after (patternFlags matchCase) = patternFlags matchCase := by
    cases first <;> cases last <;> simp [Flags.after]
  have hone : ((Item.oneOf true plainRanges).part (patternFlags matchCase)).Matches before mid after ↔
      ∃ c, mid = [c] ∧ IsSeparator matchCase c := by
    simp only [Item.part, patternFlags, Part.Matches, accepts_outside_plainRanges]
  have hstart : (Item.textStart.part (patternFlags matchCase)).Matches before mid after ↔
      mid = [] ∧ before = [] := matches_textStart_iff rfl
  have hend : (Item.textEnd.part (patternFlags matchCase)).Matches before mid after ↔
      mid = [] ∧ after = [] := matches_textEnd_iff rfl
  rw [separatorItem, Item.part, inside_plain, matches_branchesPart_iff hflags, Piece.Consumes,
    ← hone]
  simp only [List.mem_append, List.mem_ite_nil_right, List.mem_singleton, or_and_right, exists_or,
    and_assoc, exists_and_left, exists_eq_left, matches_singleton_iff, hstart, hend]
  tauto

theorem matches_hostItem_iff :
    (hostItem.part flags).Matches before mid after ↔ IsHostLead mid := by
  have hcolon : ∀ c, (Atom.oneOf true [(':', ':')] flags.caseless).accepts c = true ↔ c ≠ ':' :=
    fun c => accepts_outside_singleton (by decide) (by decide)
  have hslash : ∀ c, (Atom.oneOf true [('/', '/')] flags.caseless).accepts c = true ↔ c ≠ '/' :=
    fun c => accepts_outside_singleton (by decide) (by decide)
  have hchar : ∀ d : Char, d.toNat < 0x80 ∧ d.isAlpha = false →
      ∀ c, (Atom.char d flags.caseless).accepts c = true ↔ c = d := fun d hd c =>
    accepts_char_of_not_letter hd.1 hd.2
  have hdot : ∀ before mid after : List Char,
      (Part.one (.char '.' flags.caseless)).Matches before mid after ↔ mid = ['.'] := by
    intro before mid after
    simp [Part.Matches, hchar '.' (by decide)]
  simp only [hostItem, Item.part, branchesPart, branchPart, inside_plain, Flags.after,
    Repetition.least, Repetition.more, matches_alt_never_iff, matches_seq_repeated_iff,
    matches_seq_one_iff, matches_seq_empty_iff, matches_atLeastOne_one_iff, matches_atMostOne_iff,
    hcolon, hslash, hchar ':' (by decide), hchar '/' (by decide), hdot, IsHostLead]
  constructor
  · rintro ⟨scheme, _, rfl, ⟨hne, hscheme⟩, _, _, rfl, rfl, _, _, rfl, rfl, _, labels, rfl, rfl,
      hlabels⟩
    refine ⟨scheme, labels, by simp, hne, fun h => hscheme _ h rfl, ?_⟩
    rcases hlabels with rfl | ⟨inner, _, rfl, ⟨hinner, hslashes⟩, rfl⟩
    · exact .inl rfl
    · exact .inr ⟨inner, rfl, hinner, fun h => hslashes _ h rfl⟩
  · rintro ⟨scheme, labels, rfl, hne, hscheme, hlabels⟩
    refine ⟨scheme, ':' :: '/' :: '/' :: labels, by simp,
      ⟨hne, fun c hc e => hscheme (e ▸ hc)⟩, _, _, rfl, rfl, _, _, rfl, rfl, _, _, rfl, rfl, ?_⟩
    rcases hlabels with rfl | ⟨inner, rfl, hinner, hslashes⟩
    · exact .inl rfl
    · exact .inr ⟨inner, ['.'], rfl, ⟨hinner, fun c hc e => hslashes (e ▸ hc)⟩, rfl⟩

theorem Piece.matches_items_iff (p : Piece) :
    (branchPart (patternFlags matchCase) p.items).Matches before mid after ↔
      p.Consumes matchCase before mid after := by
  have hend : ∀ left rest : List Char,
      (Item.textEnd.part (patternFlags matchCase)).Matches before left rest ↔
        left = [] ∧ rest = [] := fun _ _ => matches_textEnd_iff rfl
  have hstart : ∀ left rest : List Char,
      (Item.textStart.part (patternFlags matchCase)).Matches before left rest ↔
        left = [] ∧ before = [] := fun _ _ => matches_textStart_iff rfl
  cases p with
  | char c =>
    simp [Piece.items, matches_singleton_iff, Item.part, Part.Matches, Atom.accepts, patternFlags,
      Piece.Consumes, SameChar]
  | wildcard =>
    rw [Piece.items, matches_singleton_iff, Item.part, Repetition.least, Repetition.more, Item.part,
      matches_anyNumber_one_iff]
    simp only [patternFlags, Atom.accepts, Bool.false_or, bne_iff_ne, Piece.Consumes]
    exact ⟨fun h hmem => h _ hmem rfl, fun h c hc e => h (e ▸ hc)⟩
  | separator first last => exact matches_singleton_iff.trans matches_separatorItem_iff
  | bar first last =>
    rw [Piece.items, matches_guard_iff (· = []) rfl hend,
      ← List.append_nil (if first then _ else _),
      matches_guard_iff (fun _ => before = []) rfl hstart, branchPart, Piece.Consumes]
    constructor
    · rintro ⟨hlast, hfirst, rfl⟩
      exact ⟨rfl, hfirst, hlast⟩
    · rintro ⟨rfl, hfirst, hlast⟩
      exact ⟨hlast, hfirst, rfl⟩
  | hostBar last =>
    rw [Piece.items, matches_guard_iff (· = []) rfl hend,
      matches_singleton_iff, matches_hostItem_iff, Piece.Consumes]
    exact and_comm

theorem Piece.foldl_after_items (p : Piece) : p.items.foldl Flags.after flags = flags := by
  cases p with
  | bar first last => cases first <;> cases last <;> rfl
  | hostBar last => cases last <;> rfl
  | _ => rfl

theorem matches_flatMap_items_iff (ps : List Piece) :
    (branchPart (patternFlags matchCase) (ps.flatMap Piece.items)).Matches before mid after ↔
      Consumes matchCase ps before mid after := by
  induction ps generalizing before mid after with
  | nil => exact Iff.rfl
  | cons p ps ih =>
    rw [List.flatMap_cons, matches_branchPart_append, p.foldl_after_items]
    exact then_congr (fun _ _ _ => p.matches_items_iff) fun _ _ _ => ih

/-- The items of a pattern, behind the flag that says how case matters. -/
theorem matches_pattern_iff (ps : List Piece) :
    (branchPart {} ((if matchCase then [] else [.flags ['i']]) ++ ps.flatMap Piece.items)).Matches
        before mid after ↔ Consumes matchCase ps before mid after := by
  have hflag : ∀ before mid after, (branchPart {} (if matchCase then [] else [.flags ['i']])).Matches
      before mid after ↔ mid = [] := by
    intro before mid after
    cases matchCase <;> simp [branchPart, Item.part, Part.Matches]
  have hflags : (if matchCase then [] else [.flags ['i']]).foldl Flags.after {} =
      patternFlags matchCase := by
    cases matchCase <;> rfl
  rw [matches_branchPart_append, hflags]
  exact (then_congr hflag fun _ _ _ => matches_flatMap_items_iff ps).trans empty_then

end

/-! ## Expressions -/

/-- The expression is what the text that a pattern writes is read as. -/
def IsExpressionOf (pattern : String) (matchCase : Bool) (regex : Regex) : Prop :=
  ∃ source branches, source? pattern matchCase = some source ∧
    Regex.read source.toList = some branches ∧ Regex.ofBranches source branches = regex

section
variable {pattern : String} {matchCase : Bool} {regex : Regex}

theorem regex?_eq_some_iff :
    regex? pattern matchCase = some regex ↔ IsExpressionOf pattern matchCase regex := by
  simp only [regex?, compile?, Option.bind_eq_some_iff, Option.map_eq_some_iff, IsExpressionOf,
    exists_and_left]

theorem regex?_eq_none (h : pattern.toList.any isSpecial = false) :
    regex? pattern matchCase = none := by
  rw [regex?, source?_eq_none_iff.2 h, Option.bind_none]

/-- The text that a pattern writes is always one that can be read. -/
theorem exists_regex? (h : pattern.toList.any isSpecial = true) (matchCase : Bool) :
    ∃ regex, regex? pattern matchCase = some regex := by
  have hsome : source? pattern matchCase ≠ none := by simp [source?_eq_none_iff, h]
  obtain ⟨source, hsource⟩ := Option.ne_none_iff_exists'.1 hsome
  exact ⟨_, regex?_eq_some_iff.2 ⟨source, _, hsource, read_of_source? hsource, rfl⟩⟩

theorem search_iff_consumes (h : regex? pattern matchCase = some regex) (text : String) :
    regex.search text = true ↔ ∃ before mid after, text.toList = before ++ mid ++ after ∧
      Consumes matchCase (pieces pattern.toList) before mid after := by
  obtain ⟨source, branches, hsource, hread, rfl⟩ := regex?_eq_some_iff.1 h
  rw [read_of_source? hsource] at hread
  cases hread
  rw [Regex.search_iff, Finds]
  simp only [Regex.ofBranches, branchesPart, matches_alt_never_iff, matches_pattern_iff]

end

end AdFilter.Glob
