import AdFilter.FilterLine.Options
import AdFilter.Proofs.Text.Fields

/-!
# The items of the options of a rule

What an item says is told by its text alone: it is one of the known options in letters of either
case, it starts with `domain`, or it has no meaning. An item that cannot be taken `Offends`, and the
first one that does is the error of the options (`Options.read_eq_error_iff`). If none does, the
options are what the items ask for, one after the other (`Options.read_eq_ok_iff`).
-/

namespace AdFilter.FilterLine

open Text (IsFields isFields_iff)

/-- The item is the option of this name, in letters of either case. -/
def IsOption (name : String) (item : List Char) : Prop :=
  item.map Char.toLower = name.toList

/-- The options that are nothing but a name. -/
def flagOptions : List String :=
  ["match-case", "third-party", "~third-party"]

/-- The item starts with the name of the `domain` option, and `rest` follows. -/
def IsDomainItem (item rest : List Char) : Prop :=
  ∃ name, IsOption "domain" name ∧ item = name ++ rest

/-- Why an item cannot be taken. -/
inductive Offends (item : List Char) : RejectReason → Prop where
  | domain {rest : List Char} : IsDomainItem item rest → rest.head? ≠ some '=' →
      Offends item .invalidDomainOption
  | contentType {name : String} : name ∈ contentTypes →
      IsOption name item ∨ IsOption ("~" ++ name) item → (∀ rest, ¬IsDomainItem item rest) →
      Offends item (.unsupportedOption (String.ofList item))

/-- A domain constraint as it is written: the name, behind a `~` if it is negated. -/
inductive IsEntry : List Char → DomainConstraint → Prop where
  | negated {name : List Char} : IsEntry ('~' :: name) { name := String.ofList name, negated := true }
  | plain {name : List Char} : name.head? ≠ some '~' →
      IsEntry name { name := String.ofList name, negated := false }

/-- The domain constraints of an item: those of its value, if it is a `domain` option. -/
inductive AsksDomains (item : List Char) : List DomainConstraint → Prop where
  | value {value : List Char} {fields : List (List Char)} {constraints : List DomainConstraint} :
      IsDomainItem item ('=' :: value) → IsFields '|' value fields →
      List.Forall₂ IsEntry fields constraints → AsksDomains item constraints
  | none : (∀ value, ¬IsDomainItem item ('=' :: value)) → AsksDomains item []

/-! ## One item -/

section
variable {item rest : List Char}

theorem isDomainItem_iff : IsDomainItem item rest ↔
    "domain".toList.isPrefixOf (item.map Char.toLower) = true ∧
      item.drop "domain".length = rest := by
  rw [List.isPrefixOf_iff_prefix]
  constructor
  · rintro ⟨name, hname, rfl⟩
    have hlength : name.length = "domain".length := by
      rw [← List.length_map (f := Char.toLower), hname]
      rfl
    refine ⟨⟨rest.map Char.toLower, ?_⟩, List.drop_left' hlength⟩
    rw [List.map_append, hname]
  · rintro ⟨⟨after, hafter⟩, rfl⟩
    refine ⟨item.take "domain".length, ?_, (List.take_append_drop _ _).symm⟩
    rw [IsOption, List.map_take, ← hafter]
    rfl

theorem mem_contentTypes_iff : String.ofList (dropTilde (item.map Char.toLower)) ∈ contentTypes ↔
    ∃ name ∈ contentTypes, IsOption name item ∨ IsOption ("~" ++ name) item := by
  have htilde : ∀ name ∈ contentTypes, name.toList.head? ≠ some '~' := by decide
  unfold IsOption
  generalize item.map Char.toLower = lower
  constructor
  · intro hmem
    refine ⟨_, hmem, ?_⟩
    unfold dropTilde
    split
    · exact .inr (by simp)
    · exact .inl (by simp)
  · rintro ⟨name, hname, hlower | hlower⟩
    · have hdrop : dropTilde lower = lower := by
        unfold dropTilde
        split
        · next rest => exact absurd (by rw [← hlower]; rfl) (htilde name hname)
        · rfl
      rwa [hdrop, hlower, String.ofList_toList]
    · have hdrop : dropTilde lower = name.toList := by
        rw [hlower, String.toList_append]
        rfl
      rwa [hdrop, String.ofList_toList]

theorem isEntry_iff {text : List Char} {c : DomainConstraint} :
    IsEntry text c ↔ DomainConstraint.ofChars text = c := by
  constructor
  · rintro (_ | hhead)
    · rfl
    · unfold DomainConstraint.ofChars
      split
      · exact absurd rfl hhead
      · rfl
  · rintro rfl
    unfold DomainConstraint.ofChars
    split
    · exact .negated
    · next htilde =>
      refine .plain fun hhead => ?_
      obtain ⟨name, rfl⟩ := List.head?_eq_some_iff.1 hhead
      exact htilde name rfl

theorem readDomains_eq_iff {value : List Char} {constraints : List DomainConstraint} :
    readDomains value = constraints ↔
      ∃ fields, IsFields '|' value fields ∧ List.Forall₂ IsEntry fields constraints := by
  have hentry : IsEntry = fun text c => DomainConstraint.ofChars text = c :=
    funext fun _ => funext fun _ => propext isEntry_iff
  have hentries : ∀ fields, List.Forall₂ IsEntry fields constraints ↔
      fields.map DomainConstraint.ofChars = constraints := by
    intro fields
    rw [← List.forall₂_eq_eq_eq, List.forall₂_map_left_iff, hentry]
  simp only [isFields_iff, exists_eq_left, hentries]
  rfl

theorem IsDomainItem.not_flag (h : IsDomainItem item rest) :
    ∀ name ∈ flagOptions, ¬IsOption name item := by
  have hnone : ∀ name ∈ flagOptions, "domain".toList.isPrefixOf name.toList = false := by decide
  intro name hname hoption
  have hitem := (isDomainItem_iff.1 h).1
  rw [hoption, hnone name hname] at hitem
  cases hitem

theorem Offends.not_flag {reason : RejectReason} (h : Offends item reason) :
    ∀ name ∈ flagOptions, ¬IsOption name item := by
  cases h with
  | domain hitem _ => exact hitem.not_flag
  | contentType htype hitem _ =>
    have hnone : ∀ name ∈ flagOptions, String.ofList (dropTilde name.toList) ∉ contentTypes := by
      decide
    intro name hname hoption
    have htypes := mem_contentTypes_iff.2 ⟨_, htype, hitem⟩
    rw [hoption] at htypes
    exact hnone name hname htypes

theorem IsDomainItem.unique {rest' : List Char} (h : IsDomainItem item rest)
    (h' : IsDomainItem item rest') : rest = rest' :=
  (isDomainItem_iff.1 h).2.symm.trans (isDomainItem_iff.1 h').2

theorem Offends.unique {reason reason' : RejectReason} (h : Offends item reason)
    (h' : Offends item reason') : reason = reason' := by
  cases h with
  | domain hitem _ =>
    cases h' with
    | domain _ _ => rfl
    | contentType _ _ hdomain => exact absurd hitem (hdomain _)
  | contentType _ _ hdomain =>
    cases h' with
    | domain hitem _ => exact absurd hitem (hdomain _)
    | contentType _ _ _ => rfl

inductive Says (item : List Char) : Except RejectReason OptionItem → Prop where
  | matchCase : IsOption "match-case" item → Says item (.ok .matchCase)
  | thirdParty : IsOption "third-party" item → Says item (.ok .thirdParty)
  | firstParty : IsOption "~third-party" item → Says item (.ok .firstParty)
  | domains {value : List Char} : IsDomainItem item ('=' :: value) →
      Says item (.ok (.domains (readDomains value)))
  | offence {reason : RejectReason} : Offends item reason → Says item (.error reason)
  | ignored : (∀ name ∈ flagOptions, ¬IsOption name item) →
      (∀ rest, ¬IsDomainItem item rest) → (∀ reason, ¬Offends item reason) →
      Says item (.ok .ignored)

theorem says_read (item : List Char) : Says item (OptionItem.read item) := by
  unfold OptionItem.read
  dsimp only
  by_cases hmatch : item.map Char.toLower = "match-case".toList
  · rw [if_pos hmatch]
    exact .matchCase hmatch
  rw [if_neg hmatch]
  by_cases hthird : item.map Char.toLower = "third-party".toList
  · rw [if_pos hthird]
    exact .thirdParty hthird
  rw [if_neg hthird]
  by_cases hfirst : item.map Char.toLower = "~third-party".toList
  · rw [if_pos hfirst]
    exact .firstParty hfirst
  rw [if_neg hfirst]
  by_cases hdomain : "domain".toList.isPrefixOf (item.map Char.toLower) = true
  · rw [if_pos hdomain]
    split
    · next value hvalue => exact .domains (isDomainItem_iff.2 ⟨hdomain, hvalue⟩)
    · next hvalue =>
      refine .offence (.domain (isDomainItem_iff.2 ⟨hdomain, rfl⟩) fun hhead => ?_)
      obtain ⟨value, heq⟩ := List.head?_eq_some_iff.1 hhead
      exact hvalue value heq
  rw [if_neg hdomain]
  have hitem : ∀ rest, ¬IsDomainItem item rest := fun rest h => hdomain (isDomainItem_iff.1 h).1
  by_cases htype : String.ofList (dropTilde (item.map Char.toLower)) ∈ contentTypes
  · rw [if_pos htype]
    obtain ⟨name, hname, hoption⟩ := mem_contentTypes_iff.1 htype
    exact .offence (.contentType hname hoption hitem)
  · rw [if_neg htype]
    refine .ignored ?_ hitem ?_
    · exact List.forall_mem_cons.2 ⟨hmatch, List.forall_mem_cons.2
        ⟨hthird, List.forall_mem_singleton.2 hfirst⟩⟩
    · rintro reason (⟨hdomain, -⟩ | ⟨hname, hoption, -⟩)
      · exact hitem _ hdomain
      · exact htype (mem_contentTypes_iff.2 ⟨_, hname, hoption⟩)

theorem OptionItem.read_eq_error_iff {reason : RejectReason} :
    OptionItem.read item = .error reason ↔ Offends item reason := by
  have hsaid := says_read item
  constructor
  · intro h
    rw [h] at hsaid
    cases hsaid with
    | offence h => exact h
  · intro h
    generalize OptionItem.read item = result at hsaid
    cases hsaid with
    | matchCase hoption => exact absurd hoption (h.not_flag _ (by simp [flagOptions]))
    | thirdParty hoption => exact absurd hoption (h.not_flag _ (by simp [flagOptions]))
    | firstParty hoption => exact absurd hoption (h.not_flag _ (by simp [flagOptions]))
    | domains hitem =>
      cases h with
      | domain hrest hhead =>
        cases hitem.unique hrest
        exact absurd rfl hhead
      | contentType _ _ hdomain => exact absurd hitem (hdomain _)
    | offence h' => rw [h.unique h']
    | ignored _ _ hnone => exact absurd h (hnone _)

def OptionItem.flag? : OptionItem → Option String
  | .matchCase => some "match-case"
  | .thirdParty => some "third-party"
  | .firstParty => some "~third-party"
  | _ => none

def OptionItem.constraints : OptionItem → List DomainConstraint
  | .domains constraints => constraints
  | _ => []

theorem IsOption.name_eq {name name' : String} (h : IsOption name item)
    (h' : IsOption name' item) : name = name' :=
  String.toList_inj.1 (h.symm.trans h')

theorem Says.flag?_eq_iff {i : OptionItem} (h : Says item (.ok i)) {name : String}
    (hname : name ∈ flagOptions) : i.flag? = some name ↔ IsOption name item := by
  have hiff : ∀ flag, IsOption flag item → (some flag = some name ↔ IsOption name item) := by
    intro flag hflag
    rw [Option.some_inj]
    exact ⟨fun h => h ▸ hflag, hflag.name_eq⟩
  cases h with
  | matchCase hoption => exact hiff _ hoption
  | thirdParty hoption => exact hiff _ hoption
  | firstParty hoption => exact hiff _ hoption
  | domains hitem => exact iff_of_false nofun (hitem.not_flag name hname)
  | ignored hnone _ _ => exact iff_of_false nofun (hnone name hname)

theorem Says.asksDomains {i : OptionItem} (h : Says item (.ok i)) :
    AsksDomains item i.constraints := by
  have hflag : ∀ name ∈ flagOptions, IsOption name item → AsksDomains item [] :=
    fun name hname hoption => .none fun _ hitem => hitem.not_flag name hname hoption
  cases h with
  | matchCase hoption => exact hflag _ (by simp [flagOptions]) hoption
  | thirdParty hoption => exact hflag _ (by simp [flagOptions]) hoption
  | firstParty hoption => exact hflag _ (by simp [flagOptions]) hoption
  | domains hitem =>
    obtain ⟨fields, hfields, hentries⟩ := readDomains_eq_iff.1 rfl
    exact .value hitem hfields hentries
  | ignored _ hitem _ => exact .none fun _ => hitem _

theorem AsksDomains.unique {constraints constraints' : List DomainConstraint}
    (h : AsksDomains item constraints) (h' : AsksDomains item constraints') :
    constraints = constraints' := by
  cases h with
  | value hitem hfields hentries =>
    cases h' with
    | value hitem' hfields' hentries' =>
      cases hitem.unique hitem'
      rw [← readDomains_eq_iff.2 ⟨_, hfields, hentries⟩,
        ← readDomains_eq_iff.2 ⟨_, hfields', hentries'⟩]
    | none hnone => exact absurd hitem (hnone _)
  | none hnone =>
    cases h' with
    | value hitem' _ _ => exact absurd hitem' (hnone _)
    | none _ => rfl

end

/-! ## All items -/

namespace Options

/-- The options are what the items ask for. -/
structure Collects (o : Options) (items : List (List Char)) : Prop where
  matchCase : o.matchCase = true ↔ ∃ item ∈ items, IsOption "match-case" item
  third : o.party.third = true ↔ ∃ item ∈ items, IsOption "third-party" item
  first : o.party.first = true ↔ ∃ item ∈ items, IsOption "~third-party" item
  domains : ∃ entries, List.Forall₂ AsksDomains items entries ∧ o.domains = entries.flatten

/-- The first item that offends does so for this reason. -/
def FirstOffence (items : List (List Char)) (reason : RejectReason) : Prop :=
  ∃ before item after, items = before ++ item :: after ∧
    (∀ other ∈ before, ∀ reason, ¬Offends other reason) ∧ Offends item reason

theorem Collects.nil : Collects {} [] where
  matchCase := by simp
  third := by simp
  first := by simp
  domains := ⟨[], .nil, rfl⟩

theorem Collects.concat {o : Options} {items : List (List Char)} (h : Collects o items)
    {item : List Char} {i : OptionItem} (hsaid : Says item (.ok i)) :
    Collects (o.add i) (items ++ [item]) := by
  have hmem : ∀ name, (∃ other ∈ items ++ [item], IsOption name other) ↔
      (∃ other ∈ items, IsOption name other) ∨ IsOption name item := by
    simp [or_and_right, exists_or]
  refine ⟨?_, ?_, ?_, ?_⟩
  · rw [hmem, ← h.matchCase, ← hsaid.flag?_eq_iff (by simp [flagOptions])]
    cases i <;> simp [add, OptionItem.flag?]
  · rw [hmem, ← h.third, ← hsaid.flag?_eq_iff (by simp [flagOptions])]
    cases i <;> simp [add, OptionItem.flag?]
  · rw [hmem, ← h.first, ← hsaid.flag?_eq_iff (by simp [flagOptions])]
    cases i <;> simp [add, OptionItem.flag?]
  · obtain ⟨entries, hentries, hdomains⟩ := h.domains
    refine ⟨entries ++ [i.constraints], List.rel_append hentries (.cons hsaid.asksDomains .nil), ?_⟩
    rw [List.flatten_append, ← hdomains]
    cases i <;> simp [add, OptionItem.constraints]

theorem Collects.foldlM {o o' : Options} {items more : List (List Char)} (h : Collects o items)
    (hread : more.foldlM addItem o = .ok o') : Collects o' (items ++ more) := by
  induction more generalizing o items with
  | nil =>
    cases hread
    simpa using h
  | cons item more ih =>
    rw [List.foldlM_cons, addItem] at hread
    have hsaid := says_read item
    cases hitem : OptionItem.read item with
    | error reason => simp [hitem, Except.map, bind, Except.bind] at hread
    | ok i =>
      rw [hitem] at hread hsaid
      simpa using ih (h.concat hsaid) hread

theorem Collects.unique {o o' : Options} {items : List (List Char)} (h : Collects o items)
    (h' : Collects o' items) : o = o' := by
  obtain ⟨matchCase, ⟨first, third⟩, domains⟩ := o
  obtain ⟨matchCase', ⟨first', third'⟩, domains'⟩ := o'
  have hmatchCase : matchCase = matchCase' := Bool.eq_iff_iff.2 (h.matchCase.trans h'.matchCase.symm)
  have hthird : third = third' := Bool.eq_iff_iff.2 (h.third.trans h'.third.symm)
  have hfirst : first = first' := Bool.eq_iff_iff.2 (h.first.trans h'.first.symm)
  have hdomains : domains = domains' := by
    obtain ⟨entries, hentries, rfl⟩ := h.domains
    obtain ⟨entries', hentries', rfl⟩ := h'.domains
    have hright : Relator.RightUnique AsksDomains := fun _ _ _ => AsksDomains.unique
    rw [List.right_unique_forall₂' hright hentries hentries']
  rw [hmatchCase, hthird, hfirst, hdomains]

theorem firstOffence_cons_iff {item : List Char} {items : List (List Char)} {reason : RejectReason} :
    FirstOffence (item :: items) reason ↔
      Offends item reason ∨ (∀ reason, ¬Offends item reason) ∧ FirstOffence items reason := by
  constructor
  · rintro ⟨before, offending, after, heq, hbefore, hoffends⟩
    cases before with
    | nil =>
      cases heq
      exact .inl hoffends
    | cons _ before =>
      cases heq
      obtain ⟨hitem, hbefore⟩ := List.forall_mem_cons.1 hbefore
      exact .inr ⟨hitem, before, offending, after, rfl, hbefore, hoffends⟩
  · rintro (hoffends | ⟨hitem, before, offending, after, rfl, hbefore, hoffends⟩)
    · exact ⟨[], item, items, rfl, by simp, hoffends⟩
    · exact ⟨item :: before, offending, after, rfl, List.forall_mem_cons.2 ⟨hitem, hbefore⟩, hoffends⟩

theorem forall_not_firstOffence_iff {items : List (List Char)} :
    (∀ reason, ¬FirstOffence items reason) ↔ ∀ item ∈ items, ∀ reason, ¬Offends item reason := by
  induction items with
  | nil => simp [FirstOffence]
  | cons item items ih =>
    simp only [firstOffence_cons_iff, List.forall_mem_cons, ← ih, not_or, forall_and]
    exact and_congr_right fun hitem => by simp [hitem]

theorem foldlM_eq_error_iff {o : Options} {items : List (List Char)} {reason : RejectReason} :
    items.foldlM addItem o = .error reason ↔ FirstOffence items reason := by
  induction items generalizing o with
  | nil => exact iff_of_false nofun fun ⟨before, _, _, h, _⟩ => by cases before <;> cases h
  | cons item items ih =>
    rw [List.foldlM_cons, addItem, firstOffence_cons_iff, ← OptionItem.read_eq_error_iff]
    simp only [← OptionItem.read_eq_error_iff]
    cases OptionItem.read item with
    | error reason' => simp [Except.map, bind, Except.bind]
    | ok i => simpa [Except.map, bind, Except.bind] using ih

theorem exists_foldlM_eq_ok {o : Options} {items : List (List Char)}
    (h : ∀ item ∈ items, ∀ reason, ¬Offends item reason) :
    ∃ o', items.foldlM addItem o = .ok o' := by
  cases hread : items.foldlM addItem o with
  | error reason =>
    exact absurd (foldlM_eq_error_iff.1 hread) (forall_not_firstOffence_iff.2 h reason)
  | ok o' => exact ⟨o', rfl⟩

theorem foldlM_eq_ok_iff {o : Options} {items : List (List Char)} :
    items.foldlM addItem {} = .ok o ↔
      (∀ item ∈ items, ∀ reason, ¬Offends item reason) ∧ Collects o items := by
  have hcollects : ∀ o, items.foldlM addItem {} = .ok o → Collects o items := fun o h => by
    simpa using Collects.nil.foldlM h
  constructor
  · intro h
    refine ⟨forall_not_firstOffence_iff.1 fun reason hfirst => ?_, hcollects o h⟩
    rw [← foldlM_eq_error_iff, h] at hfirst
    cases hfirst
  · rintro ⟨hnone, ho⟩
    obtain ⟨o', hread⟩ := exists_foldlM_eq_ok hnone
    rw [hread, (hcollects o' hread).unique ho]

theorem read_eq_error_iff {text : List Char} {reason : RejectReason} :
    read text = .error reason ↔ FirstOffence (items text) reason :=
  foldlM_eq_error_iff

theorem read_eq_ok_iff {text : List Char} {o : Options} :
    read text = .ok o ↔
      (∀ item ∈ items text, ∀ reason, ¬Offends item reason) ∧ Collects o (items text) :=
  foldlM_eq_ok_iff

end Options

end AdFilter.FilterLine
