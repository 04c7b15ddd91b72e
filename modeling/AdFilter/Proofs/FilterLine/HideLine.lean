import AdFilter.Proofs.Domain
import AdFilter.Proofs.FilterLine
import Mathlib.Data.List.Induction

/-!
# What an element-hide line gives

An element-hide line has names in front of its mark and a selector behind it (`HideParts.Of`). It is
refused if it has no selector, or if it is an exception without names, and otherwise it gives the
entry that its parts describe (`readHide_eq_iff`). A scope written in front of a mark is read back,
if its names can be told from each other and from what stands around them (`read_hide_grammar`).
-/

namespace AdFilter.FilterLine

open Text (CutAt IsFields IsTrimmed IsTrimOf)

/-! ## The parts of an element-hide line -/

/-- Whether the line is an exception, and what stands on the two sides of its mark. The mark of an
exception goes before the other one, wherever they stand. -/
inductive IsMarkCut (line : List Char) : Bool → List Char → List Char → Prop where
  | exception {left right : List Char} : CutAt exceptionMark line left right →
      IsMarkCut line true left right
  | hide {left right : List Char} : ¬exceptionMark <:+: line → CutAt hideMark line left right →
      IsMarkCut line false left right

structure HideParts where
  isException : Bool
  /-- the names in front of the mark -/
  names : List (List Char)
  selector : List Char

/-- The line consists of these parts. -/
def HideParts.Of (parts : HideParts) (line : List Char) : Prop :=
  ∃ left right, IsMarkCut line parts.isException left right ∧ IsFields ',' left parts.names ∧
    IsTrimOf right parts.selector

/-- The name takes the domain out of the scope: it stands behind a `~`, or the line is an
exception. -/
def Excludes (isException : Bool) (name : List Char) (d : Domain) : Prop :=
  (∃ host, name = '~' :: host ∧ d = Domain.ofChars host) ∨
    isException = true ∧ name.head? ≠ some '~' ∧ d = Domain.ofChars name

/-- The name is that of a domain that the scope consists of. -/
def Adds (isException : Bool) (name : List Char) (d : Domain) : Prop :=
  isException = false ∧ name.head? ≠ some '~' ∧ d = Domain.ofChars name

/-- The scope that the names ask for. -/
structure IsScopeOf (isException : Bool) (names : List (List Char)) (scope : Scope) : Prop where
  mem_exclude : ∀ d, d ∈ scope.exclude ↔ ∃ name ∈ names, Excludes isException name d
  mem_domains : ∀ d, d ∈ scope.domains ↔ ∃ name ∈ names, Adds isException name d

/-- What an element-hide line gives. -/
inductive HideOutcome (parts : HideParts) : Except RejectReason Item → Prop where
  | malformed : parts.selector = [] ∨ parts.isException = true ∧ parts.names = [] →
      HideOutcome parts (.error .malformedHide)
  | entry {e : HideEntry} : parts.selector ≠ [] → (parts.isException = true → parts.names ≠ []) →
      IsScopeOf parts.isException parts.names e.scope →
      e.selectors = [String.ofList parts.selector] → HideOutcome parts (.ok (.hide e))

section
variable {line left right : List Char} {isException : Bool} {names : List (List Char)}
  {parts : HideParts} {scope : Scope}

theorem isMarkCut_iff : IsMarkCut line isException left right ↔
    splitHide line = some (isException, left, right) := by
  rw [splitHide]
  constructor
  · rintro (hcut | ⟨hnone, hcut⟩)
    · rw [Text.splitOnce_eq_some_iff.2 hcut]
    · rw [Text.splitOnce_eq_none_iff.2 hnone, Text.splitOnce_eq_some_iff.2 hcut]
      rfl
  · cases hexception : Text.splitOnce exceptionMark line with
    | some sides =>
      rintro ⟨⟩
      exact .exception (Text.splitOnce_eq_some_iff.1 hexception)
    | none =>
      cases hhide : Text.splitOnce hideMark line with
      | some sides =>
        rintro ⟨⟩
        exact .hide (Text.splitOnce_eq_none_iff.1 hexception) (Text.splitOnce_eq_some_iff.1 hhide)
      | none => simp

theorem HideParts.of_iff : parts.Of line ↔
    ∃ left right, splitHide line = some (parts.isException, left, right) ∧
      parts.names = scopeNames left ∧ parts.selector = Text.trim right := by
  simp only [HideParts.Of, isMarkCut_iff, Text.isFields_iff, ← Text.trim_eq_iff, scopeNames,
    eq_comm (b := Text.trim _)]

/-! ## Scopes -/

theorem mem_exclude_addName {name : List Char} {d : Domain} :
    d ∈ (addName isException scope name).exclude ↔
      d ∈ scope.exclude ∨ Excludes isException name d := by
  unfold addName
  split
  · next host => simp [Excludes, DomainSet.mem_insert, or_comm]
  · next htilde =>
    have hhost : ∀ host, name ≠ '~' :: host := htilde
    cases isException with
    | true => simp [Excludes, DomainSet.mem_insert, or_comm, List.head?_eq_some_iff, hhost]
    | false => simp [Excludes, hhost]

theorem mem_domains_addName {name : List Char} {d : Domain} :
    d ∈ (addName isException scope name).domains ↔
      d ∈ scope.domains ∨ Adds isException name d := by
  unfold addName
  split
  · next host => simp [Adds]
  · next htilde =>
    have hhost : ∀ host, name ≠ '~' :: host := htilde
    cases isException with
    | true => simp [Adds]
    | false => simp [Adds, DomainSet.mem_insert, or_comm, List.head?_eq_some_iff, hhost]

theorem IsScopeOf.concat (h : IsScopeOf isException names scope) (name : List Char) :
    IsScopeOf isException (names ++ [name]) (addName isException scope name) where
  mem_exclude d := by simp [mem_exclude_addName, h.mem_exclude, or_and_right, exists_or]
  mem_domains d := by simp [mem_domains_addName, h.mem_domains, or_and_right, exists_or]

theorem isScopeOf_foldl_addName (isException : Bool) (names : List (List Char)) :
    IsScopeOf isException names (names.foldl (addName isException) {}) := by
  induction names using List.reverseRecOn with
  | nil => exact ⟨by simp, by simp⟩
  | append_singleton names name ih =>
    rw [List.foldl_concat]
    exact ih.concat name

theorem IsScopeOf.unique {scope' : Scope} (h : IsScopeOf isException names scope)
    (h' : IsScopeOf isException names scope') : scope = scope' :=
  Scope.ext (DomainSet.ext_mem fun d => (h.mem_domains d).trans (h'.mem_domains d).symm)
    (DomainSet.ext_mem fun d => (h.mem_exclude d).trans (h'.mem_exclude d).symm)

theorem IsScopeOf.exclude_isEmpty_iff (h : IsScopeOf true names scope) :
    scope.exclude.isEmpty = true ↔ names = [] := by
  have hname : ∀ name, ∃ d, Excludes true name d := by
    intro name
    by_cases htilde : name.head? = some '~'
    · obtain ⟨host, rfl⟩ := List.head?_eq_some_iff.1 htilde
      exact ⟨_, .inl ⟨host, rfl, rfl⟩⟩
    · exact ⟨_, .inr ⟨rfl, htilde, rfl⟩⟩
  rw [DomainSet.isEmpty_iff, List.eq_nil_iff_forall_not_mem]
  constructor
  · intro hempty name hmem
    obtain ⟨d, hd⟩ := hname name
    exact hempty d ((h.mem_exclude d).2 ⟨name, hmem, hd⟩)
  · intro hnil d hd
    obtain ⟨name, hmem, -⟩ := (h.mem_exclude d).1 hd
    exact hnil name hmem

/-! ## Reading an element-hide line -/

theorem readHide_eq_iff {result : Except RejectReason Item} :
    (readHide isException left right).map .hide = result ↔
      HideOutcome ⟨isException, scopeNames left, Text.trim right⟩ result := by
  unfold readHide
  dsimp only
  have hscope := isScopeOf_foldl_addName isException (scopeNames left)
  generalize (scopeNames left).foldl (addName isException) {} = scope at hscope
  generalize scopeNames left = names at hscope
  generalize Text.trim right = selector
  have hmalformed : (selector.isEmpty || isException && scope.exclude.isEmpty) = true ↔
      selector = [] ∨ isException = true ∧ names = [] := by
    cases isException with
    | true => simp [hscope.exclude_isEmpty_iff]
    | false => simp
  constructor
  · rintro rfl
    split
    · next hrefused => exact .malformed (hmalformed.1 hrefused)
    · next haccepted =>
      obtain ⟨hselector, hnames⟩ := not_or.1 (mt hmalformed.2 haccepted)
      exact .entry hselector (not_and.1 hnames) hscope rfl
  · rintro (hrefused | ⟨hselector, hnames, hscope', hselectors⟩)
    · rw [if_pos (hmalformed.2 hrefused)]
      rfl
    · next e =>
      obtain ⟨scope', selectors⟩ := e
      obtain rfl : scope = scope' := hscope.unique hscope'
      obtain rfl : selectors = [String.ofList selector] := hselectors
      rw [if_neg (mt hmalformed.1 (not_or.2 ⟨hselector, not_and.2 hnames⟩))]
      rfl

end

/-! ## Writing an element-hide line -/

def scopeFields (scope : Scope) : List (List Char) :=
  scope.domains.members.map (fun d => (toString d).toList) ++
    scope.exclude.members.map fun d => '~' :: (toString d).toList

/-- The line that hides what the selector picks on the pages of a scope. -/
def hideLine (scope : Scope) (selector : List Char) : List Char :=
  [','].intercalate (scopeFields scope) ++ hideMark ++ selector

/-- The name can be told from other names, and from what else stands in a line. -/
structure IsPlainName (name : List Char) : Prop where
  ne_nil : name ≠ []
  trimmed : IsTrimmed name
  comma : ',' ∉ name
  hash : '#' ∉ name
  tilde : name.head? ≠ some '~'

/-- All domains of the scope have names, and these are plain. -/
def HasPlainNames (scope : Scope) : Prop :=
  ∀ d, d ∈ scope.domains ∨ d ∈ scope.exclude →
    (∃ host, d = Domain.ofChars host) ∧ IsPlainName (toString d).toList

section
variable {scope : Scope} {selector : List Char}

theorem mem_scopeFields {field : List Char} : field ∈ scopeFields scope ↔
    (∃ d ∈ scope.domains, field = (toString d).toList) ∨
      ∃ d ∈ scope.exclude, field = '~' :: (toString d).toList := by
  simp [scopeFields, DomainSet.mem_def, eq_comm]

theorem IsPlainName.isTrimmed_tilde {name : List Char} (h : IsPlainName name) :
    IsTrimmed ('~' :: name) :=
  IsTrimmed.append (s := ['~']) (by decide) h.trimmed (by simp) h.ne_nil []

theorem HasPlainNames.of_mem_scopeFields (h : HasPlainNames scope) :
    ∀ field ∈ scopeFields scope, field ≠ [] ∧ IsTrimmed field ∧ ',' ∉ field ∧ '#' ∉ field := by
  intro field hfield
  rcases mem_scopeFields.1 hfield with ⟨d, hd, rfl⟩ | ⟨d, hd, rfl⟩
  · obtain ⟨-, hname⟩ := h d (.inl hd)
    exact ⟨hname.ne_nil, hname.trimmed, hname.comma, hname.hash⟩
  · obtain ⟨-, hname⟩ := h d (.inr hd)
    exact ⟨nofun, hname.isTrimmed_tilde, by simp [hname.comma], by simp [hname.hash]⟩

theorem HasPlainNames.isScopeOf (h : HasPlainNames scope) :
    IsScopeOf false (scopeFields scope) scope := by
  have hback : ∀ d, d ∈ scope.domains ∨ d ∈ scope.exclude →
      Domain.ofChars (toString d).toList = d := by
    intro d hd
    obtain ⟨⟨host, rfl⟩, -⟩ := h d hd
    exact Domain.ofChars_toString_ofChars host
  refine ⟨fun d => ⟨fun hd => ?_, ?_⟩, fun d => ⟨fun hd => ?_, ?_⟩⟩
  · exact ⟨_, mem_scopeFields.2 (.inr ⟨d, hd, rfl⟩), .inl ⟨_, rfl, (hback d (.inr hd)).symm⟩⟩
  · rintro ⟨name, hname, ⟨host, rfl, rfl⟩ | ⟨⟨⟩, -⟩⟩
    rcases mem_scopeFields.1 hname with ⟨e, he, hfield⟩ | ⟨e, he, hfield⟩
    · exact absurd (by rw [← hfield]; rfl) (h e (.inl he)).2.tilde
    · cases hfield
      rwa [hback e (.inr he)]
  · exact ⟨_, mem_scopeFields.2 (.inl ⟨d, hd, rfl⟩), rfl, (h d (.inl hd)).2.tilde,
      (hback d (.inl hd)).symm⟩
  · rintro ⟨name, hname, -, htilde, rfl⟩
    rcases mem_scopeFields.1 hname with ⟨e, he, rfl⟩ | ⟨e, he, rfl⟩
    · rwa [hback e (.inl he)]
    · exact absurd rfl htilde

theorem HasPlainNames.isTrimmed_hideLine (h : HasPlainNames scope) (hne : selector ≠ [])
    (htrimmed : IsTrimmed selector) : IsTrimmed (hideLine scope selector) := by
  unfold hideLine
  cases hfields : scopeFields scope with
  | nil => exact IsTrimmed.append (s := hideMark) (by decide) htrimmed (by decide) hne []
  | cons field fields =>
    obtain ⟨hfield, hfieldTrimmed, -⟩ := h.of_mem_scopeFields field (hfields ▸ List.mem_cons_self)
    obtain ⟨rest, hrest⟩ : ∃ rest, [','].intercalate (field :: fields) = field ++ rest := by
      cases fields with
      | nil => exact ⟨[], by simp⟩
      | cons field' fields => exact ⟨_, by rw [List.intercalate_cons_cons, List.append_assoc]⟩
    rw [hrest, List.append_assoc field]
    exact hfieldTrimmed.append htrimmed hfield hne _

theorem HasPlainNames.hidePartsOf (h : HasPlainNames scope) (htrimmed : IsTrimmed selector)
    (hnone : ¬exceptionMark <:+: hideLine scope selector) :
    HideParts.Of ⟨false, scopeFields scope, selector⟩ (hideLine scope selector) := by
  have hfields := h.of_mem_scopeFields
  have hcomma : ∀ field ∈ scopeFields scope, ',' ∉ field :=
    fun field hfield => (hfields field hfield).2.2.1
  refine ⟨[','].intercalate (scopeFields scope), selector, .hide hnone ?_, ?_,
    htrimmed.isTrimOf⟩
  · refine Text.cutAt_of_not_mem ?_ selector
    rw [Text.mem_intercalate (by decide) hcomma]
    rintro ⟨field, hfield, hhash⟩
    exact (hfields field hfield).2.2.2 hhash
  · exact Text.isFields_intercalate (fun field hfield => (hfields field hfield).1)
      (fun field hfield => (hfields field hfield).2.1) hcomma

end

/-! ## Reading a line -/

/-- What a line that holds a mark gives is what its parts tell. -/
theorem read_eq_iff_of_hideParts {line : List Char} {parts : HideParts} (htrimmed : IsTrimmed line)
    (hempty : line ≠ []) (hcomment : isComment line = false) (hparts : parts.Of line)
    {result : Except RejectReason Item} : read line = result ↔ HideOutcome parts result := by
  obtain ⟨isException, names, selector⟩ := parts
  obtain ⟨left, right, hsplit, rfl, rfl⟩ := HideParts.of_iff.1 hparts
  have htrim := htrimmed.trim_eq
  rw [read_eq (by rwa [htrim]) (by rwa [htrim]), htrim, hsplit]
  exact readHide_eq_iff

theorem HideParts.exists_of {line : List Char}
    (hmark : hideMark <:+: line ∨ exceptionMark <:+: line) : ∃ parts : HideParts, parts.Of line := by
  cases hsplit : splitHide line with
  | none =>
    obtain ⟨hexception, hhide⟩ := splitHide_eq_none_iff.1 hsplit
    exact (hmark.elim hhide hexception).elim
  | some sides =>
    obtain ⟨isException, left, right⟩ := sides
    exact ⟨⟨_, _, _⟩, HideParts.of_iff.2 ⟨left, right, hsplit, rfl, rfl⟩⟩

/-- A line that holds a mark gives what its parts tell, and an entry of one selector for plain names
is what the line gives that it is written as. -/
theorem read_hide_grammar :
    (∀ line, IsTrimmed line → line ≠ [] → line.head? ≠ some '!' → line.head? ≠ some '[' →
      hideMark <:+: line ∨ exceptionMark <:+: line →
      (∃ parts : HideParts, parts.Of line) ∧
        ∀ parts : HideParts, parts.Of line →
          ∀ result, read line = result ↔ HideOutcome parts result) ∧
    ∀ (e : HideEntry) (selector : String), e.selectors = [selector] → HasPlainNames e.scope →
      selector ≠ "" → IsTrimmed selector.toList →
      let line := hideLine e.scope selector.toList
      ¬exceptionMark <:+: line → line.head? ≠ some '!' → line.head? ≠ some '[' →
      read line = .ok (.hide e) := by
  constructor
  · intro line htrimmed hempty hbang hbracket hmark
    exact ⟨HideParts.exists_of hmark, fun parts hparts result =>
      read_eq_iff_of_hideParts htrimmed hempty (isComment_eq_false_iff.2 ⟨hbang, hbracket⟩) hparts⟩
  · intro e selector hselectors hnames hne htrimmed line hnone hbang hbracket
    have hselector : selector.toList ≠ [] := by simpa using hne
    have hempty : line ≠ [] := by simp [line, hideLine, hselector]
    refine (read_eq_iff_of_hideParts (hnames.isTrimmed_hideLine hselector htrimmed) hempty
      (isComment_eq_false_iff.2 ⟨hbang, hbracket⟩) (hnames.hidePartsOf htrimmed hnone)).2 ?_
    exact .entry hselector nofun hnames.isScopeOf (by simp [hselectors])

/-- A selector may start with the character of the mark, and names are read in any order and case. -/
theorem read_hide_grammar_id :
    let e : HideEntry :=
      { scope := { domains := .ofList [.ofHost "a.test"], exclude := .ofList [.ofHost "b.a.test"] }
        selectors := ["#id"] }
    read "~B.a.test,, a.test###id".toList = .ok (.hide e) ∧
      hideLine e.scope "#id".toList = "a.test,~b.a.test###id".toList ∧
        read "a.test,~b.a.test###id".toList = .ok (.hide e) := by
  intro e
  have hparts : HideParts.Of ⟨false, ["~B.a.test".toList, "a.test".toList], "#id".toList⟩
      "~B.a.test,, a.test###id".toList :=
    HideParts.of_iff.2 ⟨"~B.a.test,, a.test".toList, "#id".toList, by decide, by decide, by decide⟩
  have hscope : IsScopeOf false ["~B.a.test".toList, "a.test".toList] e.scope := by
    have hb : Domain.ofHost "b.a.test" = Domain.ofChars "B.a.test".toList := by decide
    have ha : Domain.ofHost "a.test" = Domain.ofChars "a.test".toList := by decide
    refine ⟨fun d => ?_, fun d => ?_⟩
    · simp [e, Excludes, DomainSet.mem_ofList, hb]
    · simp [e, Adds, DomainSet.mem_ofList, ha]
  have hline : hideLine e.scope "#id".toList = "a.test,~b.a.test###id".toList := by
    have hfields : scopeFields e.scope = ["a.test".toList, "~b.a.test".toList] := by
      show [(toString (Domain.ofChars "a.test".toList)).toList,
        '~' :: (toString (Domain.ofChars "b.a.test".toList)).toList] = _
      rw [Domain.toList_toString_ofChars, Domain.toList_toString_ofChars]
      decide
    rw [hideLine, hfields]
    decide
  have hmark : ¬exceptionMark <:+: "a.test,~b.a.test###id".toList :=
    Text.splitOnce_eq_none_iff.1 (by decide)
  have hnames : HasPlainNames e.scope := by
    have hplain : ∀ host : List Char, IsPlainName (host.map Char.toLower) → ∀ d,
        d ∈ DomainSet.ofList [Domain.ofChars host] →
        (∃ host, d = Domain.ofChars host) ∧ IsPlainName (toString d).toList := by
      intro host hhost d hd
      obtain rfl := List.mem_singleton.1 (DomainSet.mem_ofList.1 hd)
      exact ⟨⟨host, rfl⟩, by rwa [Domain.toList_toString_ofChars]⟩
    rintro d (hd | hd)
    · exact hplain _ ⟨by decide, by decide, by decide, by decide, by decide⟩ d hd
    · exact hplain _ ⟨by decide, by decide, by decide, by decide, by decide⟩ d hd
  refine ⟨?_, hline, ?_⟩
  · exact (((read_hide_grammar.1 _ (by decide) (by decide) (by decide) (by decide)
      (.inl ⟨"~B.a.test,, a.test".toList, "#id".toList, by decide⟩)).2 _ hparts) _).2
      (.entry (by decide) nofun hscope rfl)
  · rw [← hline]
    exact read_hide_grammar.2 e "#id" rfl hnames (by decide) (by decide) (hline ▸ hmark)
      (by rw [hline]; decide) (by rw [hline]; decide)

end AdFilter.FilterLine
