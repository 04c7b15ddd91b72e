import AdFilter.Hide.Merge

/-!
# What merging does to declarations

Entries declare selectors with scopes. Merging by selector leaves one declaration of each selector,
with the union of its scopes, so its result is known by these unions alone
(`mergeBySelector_congr`). Merging by scope only groups declarations
(`mem_declarations_mergeByScope`).
-/

namespace AdFilter.HideEntry

/-- The selectors that entries declare, each with the scope of its entry. -/
def declarations (entries : List HideEntry) : List (String × Scope) :=
  entries.flatMap fun e => e.selectors.map fun selector => (selector, e.scope)

/-- The domain is in the union of one part of the scopes that a selector is declared with. -/
def InUnion (part : Scope → DomainSet) (ds : List (String × Scope)) (selector : String)
    (d : Domain) : Prop :=
  ∃ scope, (selector, scope) ∈ ds ∧ d ∈ part scope

/-- The same selectors are declared, and each with the same union of scopes. -/
structure SameUnions (a b : List (String × Scope)) : Prop where
  declared : ∀ selector, (∃ scope, (selector, scope) ∈ a) ↔ ∃ scope, (selector, scope) ∈ b
  domains : ∀ selector d, InUnion Scope.domains a selector d ↔ InUnion Scope.domains b selector d
  exclude : ∀ selector d, InUnion Scope.exclude a selector d ↔ InUnion Scope.exclude b selector d

theorem mem_declarations {entries : List HideEntry} {selector : String} {scope : Scope} :
    (selector, scope) ∈ declarations entries ↔
      ∃ e ∈ entries, e.scope = scope ∧ selector ∈ e.selectors := by
  simp only [declarations, List.mem_flatMap, List.mem_map, Prod.mk.injEq]
  constructor
  · rintro ⟨e, he, s, hs, rfl, rfl⟩
    exact ⟨e, he, rfl, hs⟩
  · rintro ⟨e, he, rfl, hs⟩
    exact ⟨e, he, selector, hs, rfl, rfl⟩

theorem declarations_append (a b : List HideEntry) :
    declarations (a ++ b) = declarations a ++ declarations b :=
  List.flatMap_append

theorem inUnion_append {part : Scope → DomainSet} {a b : List (String × Scope)}
    {selector : String} {d : Domain} :
    InUnion part (a ++ b) selector d ↔ InUnion part a selector d ∨ InUnion part b selector d := by
  simp only [InUnion, List.mem_append, or_and_right, exists_or]

theorem inUnion_singleton {part : Scope → DomainSet} {declared : String × Scope}
    {selector : String} {d : Domain} :
    InUnion part [declared] selector d ↔ selector = declared.1 ∧ d ∈ part declared.2 := by
  obtain ⟨s, scope⟩ := declared
  simp only [InUnion, List.mem_singleton, Prod.mk.injEq]
  constructor
  · rintro ⟨_, ⟨hs, rfl⟩, hd⟩
    exact ⟨hs, hd⟩
  · rintro ⟨hs, hd⟩
    exact ⟨scope, ⟨hs, rfl⟩, hd⟩

namespace SameUnions

variable {a b : List (String × Scope)}

theorem trans {c : List (String × Scope)} (h : SameUnions a b) (h' : SameUnions b c) :
    SameUnions a c where
  declared selector := (h.declared selector).trans (h'.declared selector)
  domains selector d := (h.domains selector d).trans (h'.domains selector d)
  exclude selector d := (h.exclude selector d).trans (h'.exclude selector d)

theorem of_mem_iff (h : ∀ declared, declared ∈ a ↔ declared ∈ b) : SameUnions a b where
  declared _ := exists_congr fun _ => h _
  domains _ _ := exists_congr fun _ => and_congr_left' (h _)
  exclude _ _ := exists_congr fun _ => and_congr_left' (h _)

theorem append_right (h : SameUnions a b) (c : List (String × Scope)) :
    SameUnions (a ++ c) (b ++ c) where
  declared selector := by simp only [List.mem_append, exists_or, h.declared]
  domains selector d := by rw [inUnion_append, inUnion_append, h.domains]
  exclude selector d := by rw [inUnion_append, inUnion_append, h.exclude]

end SameUnions

/-! ## Merging by selector -/

/-- The map has the selectors that are declared, each with the union of its scopes. -/
structure Records (map : ScopeMap) (ds : List (String × Scope)) : Prop where
  mem_iff : ∀ selector, selector ∈ map ↔ ∃ scope, (selector, scope) ∈ ds
  mem_domains : ∀ selector d,
    d ∈ (map.getD selector {}).domains ↔ InUnion Scope.domains ds selector d
  mem_exclude : ∀ selector d,
    d ∈ (map.getD selector {}).exclude ↔ InUnion Scope.exclude ds selector d

theorem mem_getD_addScope {part : Scope → DomainSet}
    (hunion : ∀ a b : Scope, part (a.union b) = (part a).union (part b)) {map : ScopeMap}
    {scope : Scope} {selector s : String} {d : Domain} :
    d ∈ part ((addScope map scope selector).getD s {}) ↔
      d ∈ part (map.getD s {}) ∨ s = selector ∧ d ∈ part scope := by
  rw [addScope, Std.TreeMap.getD_alter]
  by_cases hs : s = selector
  · subst hs
    rw [if_pos Std.ReflCmp.compare_self, Option.getD_some, hunion, DomainSet.mem_union,
      ← Std.TreeMap.getD_eq_getD_getElem?]
    simp
  · rw [if_neg fun h => hs (Std.LawfulEqCmp.eq_of_compare h).symm]
    simp [hs]

theorem Records.empty : Records ∅ [] where
  mem_iff selector := by simp
  mem_domains selector d := by simp [InUnion]
  mem_exclude selector d := by simp [InUnion]

theorem Records.addScope {map : ScopeMap} {ds : List (String × Scope)} (h : Records map ds)
    (selector : String) (scope : Scope) :
    Records (addScope map scope selector) (ds ++ [(selector, scope)]) where
  mem_iff s := by
    rw [HideEntry.addScope, Std.TreeMap.mem_alter]
    by_cases hs : s = selector
    · subst hs
      rw [if_pos Std.ReflCmp.compare_self]
      simp
    · rw [if_neg fun h => hs (Std.LawfulEqCmp.eq_of_compare h).symm, h.mem_iff]
      simp [hs]
  mem_domains s d := by
    rw [mem_getD_addScope fun _ _ => rfl, h.mem_domains, inUnion_append, inUnion_singleton]
  mem_exclude s d := by
    rw [mem_getD_addScope fun _ _ => rfl, h.mem_exclude, inUnion_append, inUnion_singleton]

theorem Records.foldl {map : ScopeMap} {recorded : List (String × Scope)}
    (h : Records map recorded) (ds : List (String × Scope)) :
    Records (ds.foldl (fun map d => HideEntry.addScope map d.2 d.1) map) (recorded ++ ds) := by
  induction ds generalizing map recorded with
  | nil => simpa using h
  | cons d ds ih =>
    have hrest := ih (h.addScope d.1 d.2)
    rwa [List.append_assoc] at hrest

theorem records_scopeMap (entries : List HideEntry) :
    Records (scopeMap entries) (declarations entries) := by
  have hfold : scopeMap entries =
      (declarations entries).foldl (fun map d => HideEntry.addScope map d.2 d.1) ∅ := by
    simp only [scopeMap, declarations, List.foldl_flatMap, List.foldl_map]
  rw [hfold]
  exact Records.empty.foldl (declarations entries)

theorem getElem?_scopeMap_congr {a b : List HideEntry}
    (h : SameUnions (declarations a) (declarations b)) (selector : String) :
    (scopeMap a)[selector]? = (scopeMap b)[selector]? := by
  have ha := records_scopeMap a
  have hb := records_scopeMap b
  have hmem : selector ∈ scopeMap a ↔ selector ∈ scopeMap b := by
    rw [ha.mem_iff, hb.mem_iff, h.declared]
  have hscope : (scopeMap a).getD selector {} = (scopeMap b).getD selector {} := by
    apply Scope.ext
    · apply DomainSet.ext_mem
      intro d
      rw [ha.mem_domains, hb.mem_domains, h.domains]
    · apply DomainSet.ext_mem
      intro d
      rw [ha.mem_exclude, hb.mem_exclude, h.exclude]
  by_cases hs : selector ∈ scopeMap a
  · rw [Std.TreeMap.getElem?_eq_some_getD hs, Std.TreeMap.getElem?_eq_some_getD (hmem.1 hs), hscope]
  · rw [Std.TreeMap.getElem?_eq_none hs, Std.TreeMap.getElem?_eq_none (mt hmem.2 hs)]

/-- Merging by selector depends on nothing but the union of scopes of each selector. -/
theorem mergeBySelector_congr {a b : List HideEntry}
    (h : SameUnions (declarations a) (declarations b)) : mergeBySelector a = mergeBySelector b := by
  have hequiv : (scopeMap a).Equiv (scopeMap b) :=
    Std.TreeMap.Equiv.of_forall_constGet?_eq (getElem?_scopeMap_congr h)
  rw [mergeBySelector, mergeBySelector, Std.TreeMap.equiv_iff_toList_eq.1 hequiv]

theorem declarations_mergeBySelector (entries : List HideEntry) :
    declarations (mergeBySelector entries) = (scopeMap entries).toList := by
  simp [declarations, mergeBySelector, List.flatMap_map]

theorem mem_declarations_mergeBySelector {entries : List HideEntry} {selector : String}
    {scope : Scope} : (selector, scope) ∈ declarations (mergeBySelector entries) ↔
      (scopeMap entries)[selector]? = some scope := by
  rw [declarations_mergeBySelector, Std.TreeMap.mem_toList_iff_getElem?_eq_some]

theorem inUnion_mergeBySelector {part : Scope → DomainSet} (hempty : part {} = ∅)
    {entries : List HideEntry} {selector : String} {d : Domain} :
    InUnion part (declarations (mergeBySelector entries)) selector d ↔
      d ∈ part ((scopeMap entries).getD selector {}) := by
  simp only [InUnion, mem_declarations_mergeBySelector, Std.TreeMap.getD_eq_getD_getElem?]
  cases (scopeMap entries)[selector]? with
  | none => simp [hempty]
  | some scope => simp

theorem sameUnions_mergeBySelector (entries : List HideEntry) :
    SameUnions (declarations (mergeBySelector entries)) (declarations entries) where
  declared selector := by
    simp only [mem_declarations_mergeBySelector, ← (records_scopeMap entries).mem_iff,
      Std.TreeMap.mem_iff_isSome_getElem?, Option.isSome_iff_exists]
  domains selector d := by
    rw [inUnion_mergeBySelector rfl, (records_scopeMap entries).mem_domains]
  exclude selector d := by
    rw [inUnion_mergeBySelector rfl, (records_scopeMap entries).mem_exclude]

theorem nodup_mergeBySelector (entries : List HideEntry) :
    ((declarations (mergeBySelector entries)).map Prod.fst).Nodup := by
  rw [declarations_mergeBySelector, Std.TreeMap.map_fst_toList_eq_keys]
  exact Std.TreeMap.nodup_keys

/-! ## Merging by scope -/

theorem mem_appendNew {selectors : List String} {selector s : String} :
    s ∈ appendNew selectors selector ↔ s ∈ selectors ∨ s = selector := by
  unfold appendNew
  split
  · next h => exact ⟨.inl, fun hs => hs.elim id fun e => e ▸ h⟩
  · simp

theorem mem_foldl_appendNew {selectors added : List String} {s : String} :
    s ∈ added.foldl appendNew selectors ↔ s ∈ selectors ∨ s ∈ added := by
  induction added generalizing selectors with
  | nil => simp
  | cons selector added ih => rw [List.foldl_cons, ih, mem_appendNew, List.mem_cons, or_assoc]

theorem nodup_foldl_appendNew {selectors : List String} (h : selectors.Nodup)
    (added : List String) : (added.foldl appendNew selectors).Nodup := by
  induction added generalizing selectors with
  | nil => exact h
  | cons selector added ih =>
    refine ih ?_
    unfold appendNew
    split
    · exact h
    · next hnew =>
      refine List.nodup_append.2 ⟨h, by simp, ?_⟩
      rintro s hs _ hmem rfl
      exact hnew (List.mem_singleton.1 hmem ▸ hs)

/-- The map has for each scope the selectors that are declared with it, without repeats. -/
structure Groups (map : SelectorMap) (ds : List (String × Scope)) : Prop where
  mem_iff : ∀ selector scope, selector ∈ map.getD scope [] ↔ (selector, scope) ∈ ds
  nodup : ∀ scope, (map.getD scope []).Nodup

theorem Groups.addSelectors {map : SelectorMap} {ds : List (String × Scope)}
    (h : Groups map ds) (e : HideEntry) :
    Groups (addSelectors map e) (ds ++ declarations [e]) := by
  have hgetD : ∀ scope, (HideEntry.addSelectors map e).getD scope [] =
      if e.scope = scope then e.selectors.foldl appendNew (map.getD scope [])
      else map.getD scope [] := by
    intro scope
    rw [HideEntry.addSelectors, Std.TreeMap.getD_alter]
    by_cases hscope : e.scope = scope
    · subst hscope
      rw [if_pos Std.ReflCmp.compare_self, if_pos rfl, Std.TreeMap.getD_eq_getD_getElem?,
        Option.getD_some]
    · rw [if_neg fun h => hscope (Std.LawfulEqCmp.eq_of_compare h), if_neg hscope]
  constructor
  · intro selector scope
    rw [hgetD, List.mem_append, mem_declarations]
    split
    · next hscope => simp [mem_foldl_appendNew, h.mem_iff, hscope]
    · next hscope => simp [h.mem_iff, hscope]
  · intro scope
    rw [hgetD]
    split
    · exact nodup_foldl_appendNew (h.nodup scope) e.selectors
    · exact h.nodup scope

theorem Groups.foldl {map : SelectorMap} {grouped : List (String × Scope)}
    (h : Groups map grouped) (entries : List HideEntry) :
    Groups (entries.foldl HideEntry.addSelectors map) (grouped ++ declarations entries) := by
  induction entries generalizing map grouped with
  | nil => simpa [declarations] using h
  | cons e entries ih =>
    have hrest := ih (h.addSelectors e)
    rwa [List.append_assoc, ← declarations_append] at hrest

theorem groups_selectorMap (entries : List HideEntry) :
    Groups (selectorMap entries) (declarations entries) := by
  have hempty : Groups ∅ [] := ⟨by simp, by simp⟩
  exact hempty.foldl entries

/-- Merging by scope keeps every selector with its scope, and adds none. -/
theorem mem_declarations_mergeByScope {entries : List HideEntry} {declared : String × Scope} :
    declared ∈ declarations (mergeByScope entries) ↔ declared ∈ declarations entries := by
  obtain ⟨selector, scope⟩ := declared
  rw [← (groups_selectorMap entries).mem_iff, Std.TreeMap.getD_eq_getD_getElem?, mem_declarations]
  simp only [mergeByScope, List.mem_map, Prod.exists, Std.TreeMap.mem_toList_iff_getElem?_eq_some]
  constructor
  · rintro ⟨_, ⟨_, selectors, hget, rfl⟩, rfl, hmem⟩
    rwa [hget]
  · intro hmem
    cases hget : (selectorMap entries)[scope]? with
    | none => simp [hget] at hmem
    | some selectors =>
      rw [hget] at hmem
      exact ⟨_, ⟨scope, selectors, hget, rfl⟩, rfl, hmem⟩

theorem map_fst_declarations (entries : List HideEntry) :
    (declarations entries).map Prod.fst = entries.flatMap (·.selectors) := by
  simp [declarations, List.map_flatMap, Function.comp_def]

theorem nodup_mergeByScope {entries : List HideEntry}
    (h : ∀ selector scope scope', (selector, scope) ∈ declarations entries →
      (selector, scope') ∈ declarations entries → scope = scope') :
    ((declarations (mergeByScope entries)).map Prod.fst).Nodup := by
  have hgroups := groups_selectorMap entries
  have hgetD : ∀ {group}, group ∈ (selectorMap entries).toList →
      (selectorMap entries).getD group.1 [] = group.2 := by
    intro group hgroup
    rw [Std.TreeMap.getD_eq_getD_getElem?,
      Std.TreeMap.mem_toList_iff_getElem?_eq_some.1 hgroup, Option.getD_some]
  rw [map_fst_declarations, mergeByScope, List.flatMap_map]
  refine List.pairwise_flatMap.2 ⟨?_, ?_⟩
  · intro group hgroup
    have hnodup := hgroups.nodup group.1
    rwa [hgetD hgroup] at hnodup
  · refine Std.TreeMap.distinct_keys_toList.imp_of_mem ?_
    rintro group group' hgroup hgroup' hkeys selector (hmem : selector ∈ group.2) _
      (hmem' : _ ∈ group'.2) rfl
    rw [← hgetD hgroup, hgroups.mem_iff] at hmem
    rw [← hgetD hgroup', hgroups.mem_iff] at hmem'
    exact hkeys (h selector _ _ hmem hmem' ▸ Std.ReflCmp.compare_self)

end AdFilter.HideEntry
