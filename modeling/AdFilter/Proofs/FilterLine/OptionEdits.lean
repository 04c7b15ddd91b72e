import AdFilter.Proofs.FilterLine.RuleLine
import AdFilter.Proofs.Rule
import Mathlib.Data.List.Infix
import Mathlib.Logic.Relation

/-!
# Edits of options that change nothing

The items of the options can be put into another order or written twice, letters of their names
can change case, blanks and items without a meaning can be added. An `Edit` is one such change. It
leaves what the pieces between the commas ask for as it is (`AskFor.edit`), and so does any number
of edits (`AskFor.edits`). The options hold what is asked for whatever its order (`Sums.foldlM`),
but for the order of the domain constraints, at which a rule does not look. So a line that gives a
rule still gives one, and it matches the same requests (`read_edits`).
-/

namespace AdFilter.FilterLine

open Text (trim trimStart trimEnd isBlank)

/-! ## Lines with options -/

/-- A line with this text before the first `$`, and these pieces between the commas behind it. -/
def optionsLine (front : List Char) (pieces : List (List Char)) : List Char :=
  front ++ '$' :: [','].intercalate pieces

/-- The line has options, which are these pieces. -/
structure HasOptions (line front : List Char) (pieces : List (List Char)) : Prop where
  eq_optionsLine : line = optionsLine front pieces
  dollar : '$' ∉ front
  ne_nil : pieces ≠ []
  comma : ∀ piece ∈ pieces, ',' ∉ piece

/-- A text without a meaning as an item, and without a comma or a `#`. -/
structure IsUnknown (item : List Char) : Prop where
  comma : ',' ∉ item
  hash : '#' ∉ item
  domain : ∀ rest, ¬IsDomainItem item rest
  flag : ∀ name ∈ flagOptions, ¬IsOption name item
  contentType : ∀ name ∈ contentTypes, ¬IsOption name item ∧ ¬IsOption ("~" ++ name) item

instance (name : String) (item : List Char) : Decidable (IsOption name item) :=
  inferInstanceAs (Decidable (item.map Char.toLower = name.toList))

/-- The pieces differ in the case of letters, and not in the value of a `domain` option. -/
structure SameButCase (piece piece' : List Char) : Prop where
  lower : piece'.map Char.toLower = piece.map Char.toLower
  value : ∀ value, IsDomainItem (trim piece') ('=' :: value) ↔
    IsDomainItem (trim piece) ('=' :: value)

/-- A change of the options that is not meant to change the rule. -/
inductive Edit : List (List Char) → List (List Char) → Prop where
  | reorder {pieces pieces' : List (List Char)} : pieces.Perm pieces' → Edit pieces pieces'
  | again {before after : List (List Char)} {piece : List Char} :
      Edit (before ++ piece :: after) (before ++ piece :: piece :: after)
  | recase {before after : List (List Char)} {piece piece' : List Char} : SameButCase piece piece' →
      Edit (before ++ piece :: after) (before ++ piece' :: after)
  | pad {before after : List (List Char)} {piece lead trail : List Char} :
      (∀ c ∈ lead, isBlank c = true) → (∀ c ∈ trail, isBlank c = true) →
      Edit (before ++ piece :: after) (before ++ (lead ++ piece ++ trail) :: after)
  | empty {before after : List (List Char)} : Edit (before ++ after) (before ++ [] :: after)
  | unknown {before after : List (List Char)} {item : List Char} : IsUnknown (trim item) →
      Edit (before ++ after) (before ++ item :: after)

section
variable {line front : List Char} {pieces pieces' : List (List Char)} {piece piece' item : List Char}

theorem exists_hasOptions (h : '$' ∈ line) : ∃ front pieces, HasOptions line front pieces := by
  obtain ⟨front, rest, rfl, hdollar⟩ := List.eq_append_cons_of_mem h
  refine ⟨front, Text.split (· == ',') rest, ?_, hdollar, Text.split_ne_nil _ rest,
    fun _ => Text.not_mem_of_mem_split⟩
  rw [optionsLine, Text.intercalate_split]

/-! ## Pieces -/

def hideMarks : List (List Char) :=
  [exceptionMark, hideMark]

/-- The text can stand between two commas of a rule. -/
def IsPiece (s : List Char) : Prop :=
  ∀ mark ∈ [','] :: hideMarks, ¬mark <:+: s

theorem infix_map_toLower_iff {mark s : List Char} (h : ∀ c ∈ mark, c.isAlpha = false) :
    mark <:+: s.map Char.toLower ↔ mark <:+: s := by
  rw [List.infix_map_iff]
  constructor
  · rintro ⟨inner, hinner, heq⟩
    exact (Text.map_toLower_eq_iff h).1 heq.symm ▸ hinner
  · exact fun hmark => ⟨mark, hmark, ((Text.map_toLower_eq_iff h).2 rfl).symm⟩

theorem isPiece_map_toLower_iff : IsPiece (piece.map Char.toLower) ↔ IsPiece piece := by
  have hletter : ∀ mark ∈ [','] :: hideMarks, ∀ c ∈ mark, c.isAlpha = false := by decide
  exact forall₂_congr fun mark hmark => not_congr (infix_map_toLower_iff (hletter mark hmark))

theorem isPiece_trim_iff : IsPiece (trim piece) ↔ IsPiece piece := by
  have hblank : ∀ mark ∈ [','] :: hideMarks, ∀ c ∈ mark, isBlank c = false := by decide
  exact forall₂_congr fun mark hmark => not_congr (Text.infix_trim_iff (hblank mark hmark))

theorem IsUnknown.isPiece (h : IsUnknown item) : IsPiece item := by
  refine List.forall_mem_cons.2 ⟨?_, fun mark hmark hitem => ?_⟩
  · exact fun hcomma => h.comma (hcomma.subset List.mem_cons_self)
  · have hhash : ∀ mark ∈ hideMarks, '#' ∈ mark := by decide
    exact h.hash (hitem.subset (hhash mark hmark))

theorem IsPiece.comma (h : IsPiece piece) : ',' ∉ piece := fun hcomma =>
  h [','] List.mem_cons_self ((List.singleton_infix_iff ',' piece).2 hcomma)

def meaning (piece : List Char) : Option OptionItem :=
  (OptionItem.read (trim piece)).toOption

theorem meaning_eq_some_iff {i : OptionItem} :
    meaning piece = some i ↔ OptionItem.read (trim piece) = .ok i := by
  unfold meaning
  cases OptionItem.read (trim piece) <;> simp [Except.toOption]

theorem SameButCase.of_domain {name name' : List Char} (h : IsOption "domain" name)
    (h' : IsOption "domain" name') (value : List Char) :
    SameButCase (name ++ '=' :: value) (name' ++ '=' :: value) := by
  have hitem : ∀ name, IsOption "domain" name →
      IsDomainItem (trim (name ++ '=' :: value)) ('=' :: trimEnd value) := by
    intro name hname
    obtain ⟨c, rest, rfl, hc, -⟩ := List.map_eq_cons_iff.1 hname
    have hblank : isBlank c = false := by rw [← Text.isBlank_toLower, hc]; decide
    refine ⟨c :: rest, hname, ?_⟩
    rw [Text.trim_append_cons (by decide), ← List.nil_append (c :: rest),
      Text.trimStart_append_cons hblank]
    rfl
  refine ⟨by rw [List.map_append, List.map_append, h, h'], fun value' => ?_⟩
  constructor
  · intro hvalue
    rw [hvalue.unique (hitem _ h')]
    exact hitem _ h
  · intro hvalue
    rw [hvalue.unique (hitem _ h)]
    exact hitem _ h'

theorem SameButCase.meaning_eq (h : SameButCase piece piece') : meaning piece' = meaning piece := by
  have hlower : (trim piece').map Char.toLower = (trim piece).map Char.toLower := by
    rw [← Text.trim_map Text.isBlank_toLower, ← Text.trim_map Text.isBlank_toLower, h.lower]
  unfold meaning OptionItem.read
  dsimp only
  rw [hlower]
  split_ifs with hmatch hthird hfirst hdomain htype
  · rfl
  · rfl
  · rfl
  · have hvalue : ∀ value, (trim piece').drop "domain".length = '=' :: value ↔
        (trim piece).drop "domain".length = '=' :: value := fun value => by
      simpa only [isDomainItem_iff, hlower, hdomain, true_and] using h.value value
    split
    · next value heq =>
      rw [(hvalue value).1 heq]
      rfl
    · next hnone =>
      split
      · next value heq => exact absurd ((hvalue value).2 heq) (hnone value)
      · rfl
  · rfl
  · rfl

theorem IsUnknown.read_eq (h : IsUnknown item) : OptionItem.read item = .ok .ignored := by
  have hsaid := says_read item
  generalize OptionItem.read item = result at hsaid
  cases hsaid with
  | matchCase hoption | thirdParty hoption | firstParty hoption =>
    exact absurd hoption (h.flag _ (by simp [flagOptions]))
  | domains hitem => exact absurd hitem (h.domain _)
  | offence hoffends =>
    cases hoffends with
    | domain hitem _ => exact absurd hitem (h.domain _)
    | contentType hname hoption _ =>
      exact absurd hoption (not_or.2 (h.contentType _ hname))
  | ignored _ _ _ => rfl

theorem isUnknown_nil : IsUnknown [] where
  comma := by simp
  hash := by simp
  domain rest h := by simpa using (isDomainItem_iff.1 h).1
  flag := by decide
  contentType := by decide

/-! ## What is asked for -/

/-- The pieces of a rule ask for these items, besides those that have no meaning. -/
structure AskFor (asked : OptionItem → Prop) (pieces : List (List Char)) : Prop where
  ne_nil : pieces ≠ []
  isPiece : ∀ piece ∈ pieces, IsPiece piece
  readable : ∀ piece ∈ pieces, ∃ i, meaning piece = some i
  iff_asked : ∀ i, i ≠ .ignored → ((∃ piece ∈ pieces, meaning piece = some i) ↔ asked i)

variable {asked : OptionItem → Prop} {before after : List (List Char)}

theorem AskFor.congr (h : AskFor asked pieces) (hmem : ∀ piece, piece ∈ pieces' ↔ piece ∈ pieces) :
    AskFor asked pieces' where
  ne_nil hnil := by
    obtain ⟨piece, hpiece⟩ := List.exists_mem_of_ne_nil _ h.ne_nil
    simpa [hnil] using (hmem piece).2 hpiece
  isPiece := by simpa only [hmem] using h.isPiece
  readable := by simpa only [hmem] using h.readable
  iff_asked := by simpa only [hmem] using h.iff_asked

theorem AskFor.replace (h : AskFor asked (before ++ piece :: after))
    (hpiece : IsPiece piece' ↔ IsPiece piece) (hmeaning : meaning piece' = meaning piece) :
    AskFor asked (before ++ piece' :: after) where
  ne_nil := by simp
  isPiece := by simpa [or_imp, forall_and, hpiece] using h.isPiece
  readable := by simpa [or_imp, forall_and, hmeaning] using h.readable
  iff_asked := by simpa [or_and_right, exists_or, hmeaning] using h.iff_asked

theorem AskFor.insert (h : AskFor asked (before ++ after)) (hpiece : IsPiece item)
    (hmeaning : meaning item = some .ignored) : AskFor asked (before ++ item :: after) where
  ne_nil := by simp
  isPiece := by simpa [or_imp, forall_and, hpiece] using h.isPiece
  readable := by simpa [or_imp, forall_and, hmeaning] using h.readable
  iff_asked i hi := by
    have hother : meaning item ≠ some i := by simpa [hmeaning] using hi.symm
    simpa [or_and_right, exists_or, hother] using h.iff_asked i hi

theorem AskFor.insert_unknown (h : AskFor asked (before ++ after))
    (hunknown : IsUnknown (trim item)) : AskFor asked (before ++ item :: after) :=
  h.insert (isPiece_trim_iff.1 hunknown.isPiece) (meaning_eq_some_iff.2 hunknown.read_eq)

theorem AskFor.edit (h : AskFor asked pieces) (hedit : Edit pieces pieces') :
    AskFor asked pieces' := by
  cases hedit with
  | reorder hperm => exact h.congr fun _ => hperm.mem_iff.symm
  | again => exact h.congr fun _ => by simp
  | recase hcase =>
    refine h.replace ?_ hcase.meaning_eq
    rw [← isPiece_map_toLower_iff, hcase.lower, isPiece_map_toLower_iff]
  | pad hlead htrail =>
    refine h.replace ?_ (by rw [meaning, Text.trim_padded hlead htrail, meaning])
    rw [← isPiece_trim_iff, Text.trim_padded hlead htrail, isPiece_trim_iff]
  | empty => exact h.insert_unknown isUnknown_nil
  | unknown hunknown => exact h.insert_unknown hunknown

theorem AskFor.edits (h : AskFor asked pieces)
    (hedits : Relation.ReflTransGen Edit pieces pieces') : AskFor asked pieces' := by
  induction hedits with
  | refl => exact h
  | tail _ hedit ih => exact ih.edit hedit

/-! ## Options that hold what is asked for -/

/-- The options are set by these items, in whatever order. -/
structure Sums (o : Options) (asked : OptionItem → Prop) : Prop where
  matchCase : o.matchCase = true ↔ asked .matchCase
  third : o.party.third = true ↔ asked .thirdParty
  first : o.party.first = true ↔ asked .firstParty
  domains : ∀ c, c ∈ o.domains ↔ ∃ constraints, asked (.domains constraints) ∧ c ∈ constraints

theorem Sums.empty : Sums {} fun _ => False := by
  constructor <;> simp

theorem Sums.congr {o : Options} {asked' : OptionItem → Prop} (h : Sums o asked)
    (hasked : ∀ i, i ≠ .ignored → (asked' i ↔ asked i)) : Sums o asked' where
  matchCase := h.matchCase.trans (hasked .matchCase nofun).symm
  third := h.third.trans (hasked .thirdParty nofun).symm
  first := h.first.trans (hasked .firstParty nofun).symm
  domains c := (h.domains c).trans
    (exists_congr fun constraints => and_congr_left' (hasked (.domains constraints) nofun).symm)

theorem Sums.add {o : Options} (h : Sums o asked) (i : OptionItem) :
    Sums (o.add i) fun j => asked j ∨ j = i := by
  obtain ⟨hmatch, hthird, hfirst, hdomains⟩ := h
  cases i <;>
    constructor <;> simp [Options.add, hmatch, hthird, hfirst, hdomains, or_and_right, exists_or]

theorem Sums.foldlM {o : Options} (h : Sums o asked) {items : List (List Char)}
    (hread : ∀ item ∈ items, ∃ i, OptionItem.read item = .ok i) :
    ∃ o', items.foldlM Options.addItem o = .ok o' ∧
      Sums o' fun i => asked i ∨ ∃ item ∈ items, OptionItem.read item = .ok i := by
  induction items generalizing o asked with
  | nil => exact ⟨o, rfl, h.congr fun i _ => by simp⟩
  | cons item items ih =>
    obtain ⟨⟨i, hi⟩, hitems⟩ := List.forall_mem_cons.1 hread
    obtain ⟨o', ho', hsums⟩ := ih (h.add i) hitems
    refine ⟨o', ?_, hsums.congr fun j _ => ?_⟩
    · rw [List.foldlM_cons, Options.addItem, hi]
      exact ho'
    · simp [hi, or_assoc, eq_comm]

theorem Options.items_intercalate (hne : pieces ≠ []) (hcomma : ∀ piece ∈ pieces, ',' ∉ piece) :
    items ([','].intercalate pieces) = (pieces.map trim).filter (!·.isEmpty) := by
  rw [items, Text.split_intercalate hne hcomma]

theorem Options.items_trimEnd (text : List Char) : items (trimEnd text) = items text := by
  obtain ⟨trail, heq, htrail⟩ := Text.exists_eq_trimEnd_append text
  have hitems : (Text.split (· == ',') (trimEnd text ++ trail)).map trim =
      (Text.split (· == ',') (trimEnd text)).map trim :=
    Text.map_trim_split_append (by decide) (trimEnd text) htrail
  rw [← heq] at hitems
  rw [items, items, hitems]

/-- A blank piece gives no item, which does not matter to what the empty text satisfies. -/
theorem forall_mem_items_iff {p : List Char → Prop} (hnil : p []) :
    (∀ item ∈ (pieces.map trim).filter (!·.isEmpty), p item) ↔ ∀ piece ∈ pieces, p (trim piece) := by
  constructor
  · intro h piece hpiece
    by_cases hblank : trim piece = []
    · rwa [hblank]
    · exact h _ (List.mem_filter.2 ⟨List.mem_map_of_mem hpiece, by simp [hblank]⟩)
  · intro h item hitem
    obtain ⟨piece, hpiece, rfl⟩ := List.mem_map.1 (List.mem_filter.1 hitem).1
    exact h piece hpiece

theorem exists_mem_items_iff {i : OptionItem} (hi : i ≠ .ignored) :
    (∃ item ∈ (pieces.map trim).filter (!·.isEmpty), OptionItem.read item = .ok i) ↔
      ∃ piece ∈ pieces, meaning piece = some i := by
  have hnil : OptionItem.read [] ≠ .ok i := by
    rw [isUnknown_nil.read_eq]
    rintro ⟨⟩
    exact hi rfl
  have hnone := @forall_mem_items_iff pieces (fun item => OptionItem.read item ≠ .ok i) hnil
  simpa only [not_forall, not_not, exists_prop, meaning_eq_some_iff] using not_congr hnone

/-- The options are set by what the pieces ask for. -/
theorem AskFor.exists_read (h : AskFor asked pieces) :
    ∃ o, Options.read (trimEnd ([','].intercalate pieces)) = .ok o ∧ Sums o asked := by
  have hread : ∀ item ∈ (pieces.map trim).filter (!·.isEmpty), ∃ i, OptionItem.read item = .ok i :=
    (forall_mem_items_iff ⟨_, isUnknown_nil.read_eq⟩).2 fun piece hpiece => by
      simpa only [meaning_eq_some_iff] using h.readable piece hpiece
  obtain ⟨o, ho, hsums⟩ := Sums.empty.foldlM hread
  refine ⟨o, ?_, hsums.congr fun i hi => ?_⟩
  · rw [Options.read, Options.items_trimEnd,
      Options.items_intercalate h.ne_nil fun piece hpiece => (h.isPiece piece hpiece).comma]
    exact ho
  · rw [← h.iff_asked i hi, false_or, exists_mem_items_iff hi]

/-! ## Lines with options, read -/

/-- The pattern of a rule with options, of what stands before them. -/
def frontPattern (front : List Char) : String :=
  String.ofList (splitException (trimStart front)).2

/-- What stands before the options of a rule: no comment, no mark of an element-hide line, and a
pattern that is not refused. -/
structure IsFront (front : List Char) : Prop where
  comment : isComment (trimStart front) = false
  mark : ∀ mark ∈ hideMarks, ¬mark <:+: front
  ne_empty : frontPattern front ≠ ""
  not_degenerate : frontPattern front ∉ degeneratePatterns
  not_tooLarge : Glob.isTooLarge (frontPattern front) = false

theorem isComment_append (s t : List Char) : isComment (s ++ '$' :: t) = isComment s := by
  cases s <;> rfl

theorem splitHide_optionsLine (hne : pieces ≠ []) :
    splitHide (trim (optionsLine front pieces)) = none ↔
      (∀ mark ∈ hideMarks, ¬mark <:+: front) ∧
        ∀ mark ∈ hideMarks, ∀ piece ∈ pieces, ¬mark <:+: piece := by
  have hmarks : splitHide (trim (optionsLine front pieces)) = none ↔
      ∀ mark ∈ hideMarks, ¬mark <:+: trim (optionsLine front pieces) := by
    rw [splitHide_eq_none_iff]
    simp [hideMarks]
  have hplain : ∀ mark ∈ hideMarks, (∀ c ∈ mark, isBlank c = false) ∧ '$' ∉ mark ∧ ',' ∉ mark := by
    decide
  rw [hmarks, ← forall₂_and]
  refine forall₂_congr fun mark hmark => ?_
  obtain ⟨hblank, hdollar, hcomma⟩ := hplain mark hmark
  rw [Text.infix_trim_iff hblank, optionsLine, Text.infix_append_cons_iff hdollar,
    Text.infix_intercalate_iff hcomma hne]
  simp only [not_or, not_exists, not_and]

/-- A line with options gives a rule if nothing in it stands against it. -/
theorem read_optionsLine_iff (hdollar : '$' ∉ front) (hne : pieces ≠ []) {r : Rule} :
    read (optionsLine front pieces) = .ok (.rule r) ↔
      IsFront front ∧ (∀ mark ∈ hideMarks, ∀ piece ∈ pieces, ¬mark <:+: piece) ∧
        ∃ o, Options.read (trimEnd ([','].intercalate pieces)) = .ok o ∧
          r = ruleOf (trim (optionsLine front pieces)) (frontPattern front) o := by
  have htrim : trim (optionsLine front pieces) =
      trimStart front ++ '$' :: trimEnd ([','].intercalate pieces) :=
    Text.trim_append_cons (by decide) _ _
  have hdollar' : '$' ∉ (splitException (trimStart front)).2 :=
    dollar_not_mem_splitException fun hmem => hdollar ((List.dropWhile_suffix isBlank).subset hmem)
  have hrule := @readRule_eq_ok_iff (trim (optionsLine front pieces)) r
  rw [htrim, splitException_append, splitOptions_append hdollar', ← htrim] at hrule
  dsimp only at hrule
  rw [read_eq_rule_iff, splitHide_optionsLine hne, hrule, htrim, isComment_append]
  constructor
  · rintro ⟨-, hcomment, ⟨hfront, hpieces⟩, hempty, hdegenerate, hlarge, hoptions⟩
    exact ⟨⟨hcomment, hfront, hempty, hdegenerate, hlarge⟩, hpieces, hoptions⟩
  · rintro ⟨⟨hcomment, hfront, hempty, hdegenerate, hlarge⟩, hpieces, hoptions⟩
    exact ⟨by simp, hcomment, ⟨hfront, hpieces⟩, hempty, hdegenerate, hlarge, hoptions⟩

theorem HasOptions.askFor (h : HasOptions line front pieces) {r : Rule}
    (hread : read line = .ok (.rule r)) :
    AskFor (fun i => ∃ piece ∈ pieces, meaning piece = some i) pieces := by
  rw [h.eq_optionsLine, read_optionsLine_iff h.dollar h.ne_nil] at hread
  obtain ⟨-, hmarks, o, hoptions, -⟩ := hread
  rw [Options.read, Options.items_trimEnd, Options.items_intercalate h.ne_nil h.comma,
    Options.foldlM_eq_ok_iff] at hoptions
  refine ⟨h.ne_nil, fun piece hpiece => ?_, fun piece hpiece => ?_, fun _ _ => Iff.rfl⟩
  · refine List.forall_mem_cons.2 ⟨fun hcomma => ?_, fun mark hmark => hmarks mark hmark piece hpiece⟩
    exact h.comma piece hpiece ((List.singleton_infix_iff ',' piece).1 hcomma)
  · have hitems : ∀ item ∈ (pieces.map trim).filter (!·.isEmpty),
        ∃ i, OptionItem.read item = .ok i := by
      intro item hitem
      cases hsaid : OptionItem.read item with
      | ok i => exact ⟨i, rfl⟩
      | error reason =>
        exact absurd (OptionItem.read_eq_error_iff.1 hsaid) (hoptions.1 item hitem reason)
    simp only [meaning_eq_some_iff]
    exact (forall_mem_items_iff ⟨_, isUnknown_nil.read_eq⟩).1 hitems piece hpiece

theorem Sums.same {o o' : Options} (h : Sums o asked) (h' : Sums o' asked) :
    o'.matchCase = o.matchCase ∧ o'.party = o.party ∧ ∀ c, c ∈ o'.domains ↔ c ∈ o.domains := by
  refine ⟨?_, ?_, fun c => (h'.domains c).trans (h.domains c).symm⟩
  · exact Bool.eq_iff_iff.2 (h'.matchCase.trans h.matchCase.symm)
  · have hfirst : o'.party.first = o.party.first := Bool.eq_iff_iff.2 (h'.first.trans h.first.symm)
    have hthird : o'.party.third = o.party.third := Bool.eq_iff_iff.2 (h'.third.trans h.third.symm)
    show (⟨o'.party.first, o'.party.third⟩ : Party) = ⟨o.party.first, o.party.third⟩
    rw [hfirst, hthird]

/-- Rules with the same pattern match the same requests if their options differ in nothing but the
order and the number of the domain constraints. -/
theorem isMatch_ruleOf_congr {o o' : Options} (hmatchCase : o'.matchCase = o.matchCase)
    (hparty : o'.party = o.party) (hdomains : ∀ c, c ∈ o'.domains ↔ c ∈ o.domains)
    (line' : List Char) (pattern : String) (mode : ConstraintMode) (source request : String) :
    (ruleOf line' pattern o').isMatch mode source request =
      (ruleOf line pattern o).isMatch mode source request := by
  have hadmits : (ruleOf line' pattern o').admitsSource mode source =
      (ruleOf line pattern o).admitsSource mode source :=
    Rule.admitsSource_congr hdomains mode source
  have hpattern : (ruleOf line' pattern o').pattern = (ruleOf line pattern o).pattern :=
    congrArg (Pattern.compile pattern) hmatchCase
  have hsameParty : (ruleOf line' pattern o').party = (ruleOf line pattern o).party := hparty
  rw [Rule.isMatch, Rule.isMatch, hadmits, hpattern, hsameParty]

end

/-- Edits of the options of a line that gives a rule leave it a line that gives one, and what the
rule matches is the same. -/
theorem read_edits {line : List Char} {r : Rule} (hdollar : '$' ∈ line)
    (hread : read line = .ok (.rule r)) :
    (∃ front pieces, HasOptions line front pieces) ∧
    ∀ front pieces, HasOptions line front pieces →
      ∀ pieces', Relation.ReflTransGen Edit pieces pieces' →
      ∃ r', read (optionsLine front pieces') = .ok (.rule r') ∧
        ∀ mode source request, r'.isMatch mode source request = r.isMatch mode source request := by
  refine ⟨exists_hasOptions hdollar, fun front pieces hoptions pieces' hedits => ?_⟩
  have hasked := hoptions.askFor hread
  have hasked' := hasked.edits hedits
  rw [hoptions.eq_optionsLine, read_optionsLine_iff hoptions.dollar hoptions.ne_nil] at hread
  obtain ⟨hfront, -, o, ho, rfl⟩ := hread
  obtain ⟨o₁, ho₁, hsums⟩ := hasked.exists_read
  obtain ⟨o', ho', hsums'⟩ := hasked'.exists_read
  cases ho.symm.trans ho₁
  obtain ⟨hmatchCase, hparty, hdomains⟩ := hsums.same hsums'
  refine ⟨ruleOf (trim (optionsLine front pieces')) (frontPattern front) o', ?_, ?_⟩
  · rw [read_optionsLine_iff hoptions.dollar hasked'.ne_nil]
    refine ⟨hfront, fun mark hmark piece hpiece => ?_, o', ho', rfl⟩
    exact hasked'.isPiece piece hpiece mark (List.mem_cons_of_mem _ hmark)
  · exact isMatch_ruleOf_congr hmatchCase hparty hdomains _ _

/-- The `domain` option in capital letters, with blanks around it, and before an option that is
given twice. -/
theorem read_edits_noisy :
    let line := "ads$third-party,domain=A.test".toList
    let noisy := "ads$x, DOMAIN=A.test ,third-party,third-party,".toList
    '$' ∈ line ∧ ∃ r, read line = .ok (.rule r) ∧ ∃ r', read noisy = .ok (.rule r') ∧
      (∀ mode source request, r'.isMatch mode source request = r.isMatch mode source request) ∧
      r.isMatch .exact "A.test" "http://b.test/ads" = true := by
  intro line noisy
  let third := "third-party".toList
  let domain := "domain=A.test".toList
  let capital := "DOMAIN=A.test".toList
  have hdollar : '$' ∈ line := by decide
  let r := ruleOf line "ads" { party := { third := true }, domains := [⟨"A.test", false⟩] }
  have hread : read line = .ok (.rule r) := by rfl
  have hoptions : HasOptions line "ads".toList [third, domain] :=
    ⟨by decide, by decide, by decide, by decide⟩
  have hcase : SameButCase domain capital :=
    @SameButCase.of_domain "domain".toList "DOMAIN".toList (by decide) (by decide) "A.test".toList
  have hunknown : IsUnknown "x".toList := by
    refine ⟨by decide, by decide, fun rest h => ?_, by decide, by decide⟩
    exact absurd (isDomainItem_iff.1 h).1 (by decide)
  have hedits : Relation.ReflTransGen Edit [third, domain]
      ["x".toList, ' ' :: capital ++ [' '], third, third, []] :=
    .head (.reorder (.swap domain third [])) <|
    .head (@Edit.recase [] [third] domain capital hcase) <|
    .head (@Edit.pad [] [third] capital [' '] [' '] (by decide) (by decide)) <|
    .head (@Edit.again [' ' :: capital ++ [' ']] [] third) <|
    .head (@Edit.empty [' ' :: capital ++ [' '], third, third] []) <|
    .single (@Edit.unknown [] [' ' :: capital ++ [' '], third, third, []] "x".toList hunknown)
  obtain ⟨r', hread', hsame⟩ := (read_edits hdollar hread).2 _ _ hoptions _ hedits
  have hnoisy : optionsLine "ads".toList ["x".toList, ' ' :: capital ++ [' '], third, third, []] =
      noisy := by decide
  rw [hnoisy] at hread'
  exact ⟨hdollar, r, hread, r', hread', hsame, by decide +kernel⟩

end AdFilter.FilterLine
