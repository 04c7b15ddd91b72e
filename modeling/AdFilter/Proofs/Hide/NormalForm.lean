import AdFilter.Proofs.Hide.Merge
import Mathlib.Data.List.Induction

/-!
# Entries in normal form

Entries are in the normal form of the second pass if their scopes ascend and no entry repeats a
selector. Merging by scope makes such entries of any others and leaves them as they are, so to merge
again changes nothing (`mergeByScope_eq_self`). What a page is shown does not change either, since
declarations are only grouped.
-/

namespace AdFilter.HideEntry

/-- The entries stand in the order of their scopes, and none repeats a selector. -/
structure IsNormal (entries : List HideEntry) : Prop where
  ascending : entries.Pairwise fun a b => compare a.scope b.scope = .lt
  nodup : ∀ e ∈ entries, e.selectors.Nodup

theorem pairwise_scope_ne {entries : List HideEntry}
    (h : entries.Pairwise fun a b => compare a.scope b.scope = .lt) :
    entries.Pairwise fun a b => a.scope ≠ b.scope := by
  refine h.imp fun {a b} hlt heq => ?_
  simp [heq] at hlt

theorem IsNormal.distinct {entries : List HideEntry} (h : IsNormal entries) :
    entries.Pairwise fun a b => a.scope ≠ b.scope :=
  pairwise_scope_ne h.ascending

/-! ## The group of a scope -/

/-- The selectors of the entries with a scope, each where it first comes up. -/
def selectorsWith (entries : List HideEntry) (scope : Scope) : List String :=
  ((entries.filter (·.scope = scope)).flatMap (·.selectors)).foldl appendNew []

theorem selectorsWith_concat (entries : List HideEntry) (e : HideEntry) (scope : Scope) :
    selectorsWith (entries ++ [e]) scope =
      if e.scope = scope then e.selectors.foldl appendNew (selectorsWith entries scope)
      else selectorsWith entries scope := by
  unfold selectorsWith
  split
  · next h => simp [List.filter_append, h]
  · next h => simp [List.filter_append, h]

theorem selectorsWith_of_not_mem {entries : List HideEntry} {scope : Scope}
    (h : scope ∉ entries.map (·.scope)) : selectorsWith entries scope = [] := by
  have hnone : entries.filter (·.scope = scope) = [] := by
    refine List.filter_eq_nil_iff.2 fun e he heq => h ?_
    exact List.mem_map.2 ⟨e, he, of_decide_eq_true heq⟩
  rw [selectorsWith, hnone]
  rfl

/-- What the map of the second pass has for a scope, also if no selector is declared with it. -/
theorem getElem?_selectorMap (entries : List HideEntry) (scope : Scope) :
    (selectorMap entries)[scope]? =
      if scope ∈ entries.map (·.scope) then some (selectorsWith entries scope) else none := by
  induction entries using List.reverseRecOn with
  | nil => simp [selectorMap]
  | append_singleton entries e ih =>
    have hconcat : selectorMap (entries ++ [e]) = addSelectors (selectorMap entries) e := by
      rw [selectorMap, List.foldl_append]
      rfl
    rw [hconcat, addSelectors, Std.TreeMap.getElem?_alter, selectorsWith_concat]
    by_cases hscope : e.scope = scope
    · subst hscope
      have hold : (selectorMap entries)[e.scope]?.getD [] = selectorsWith entries e.scope := by
        rw [ih]
        split
        · rfl
        · next hnew => exact (selectorsWith_of_not_mem hnew).symm
      rw [if_pos Std.ReflCmp.compare_self, hold, if_pos rfl, if_pos (by simp)]
    · rw [if_neg fun h => hscope (Std.LawfulEqCmp.eq_of_compare h), ih, if_neg hscope]
      simp [Ne.symm hscope]

theorem mem_mergeByScope {entries : List HideEntry} {e : HideEntry} :
    e ∈ mergeByScope entries ↔
      e.scope ∈ entries.map (·.scope) ∧ e.selectors = selectorsWith entries e.scope := by
  have hget : e ∈ mergeByScope entries ↔ (selectorMap entries)[e.scope]? = some e.selectors := by
    simp only [mergeByScope, List.mem_map, Prod.exists, Std.TreeMap.mem_toList_iff_getElem?_eq_some]
    constructor
    · rintro ⟨_, _, h, rfl⟩
      exact h
    · exact fun h => ⟨_, _, h, rfl⟩
  rw [hget, getElem?_selectorMap]
  split
  · next h => exact Option.some_inj.trans (eq_comm.trans (and_iff_right h).symm)
  · next h => exact iff_of_false (by simp) fun hmem => h hmem.1

theorem isNormal_mergeByScope (entries : List HideEntry) : IsNormal (mergeByScope entries) where
  ascending := List.pairwise_map.2 Std.TreeMap.ordered_keys_toList
  nodup e he := by
    rw [(mem_mergeByScope.1 he).2]
    exact nodup_foldl_appendNew List.nodup_nil _

/-! ## Merging again -/

theorem foldl_appendNew_of_nodup {selectors added : List String} (h : (selectors ++ added).Nodup) :
    added.foldl appendNew selectors = selectors ++ added := by
  induction added generalizing selectors with
  | nil => simp
  | cons selector added ih =>
    have hnew : selector ∉ selectors := fun hmem =>
      (List.nodup_append.1 h).2.2 selector hmem selector List.mem_cons_self rfl
    rw [List.append_cons] at h
    rw [List.foldl_cons, appendNew, if_neg hnew, ih h, ← List.append_cons]

/-- Among entries with different scopes, the only one with the scope of an entry is that entry. -/
theorem filter_scope_eq_singleton {entries : List HideEntry}
    (h : entries.Pairwise fun a b => a.scope ≠ b.scope) {e : HideEntry} (he : e ∈ entries) :
    entries.filter (·.scope = e.scope) = [e] := by
  induction entries with
  | nil => cases he
  | cons first rest ih =>
    obtain ⟨hfirst, hrest⟩ := List.pairwise_cons.1 h
    rcases List.mem_cons.1 he with rfl | he
    · have hnone : rest.filter (·.scope = e.scope) = [] :=
        List.filter_eq_nil_iff.2 fun other hmem heq =>
          hfirst other hmem (of_decide_eq_true heq).symm
      rw [List.filter_cons, if_pos (decide_eq_true rfl), hnone]
    · rw [List.filter_cons, if_neg (by simpa using hfirst e he), ih hrest he]

theorem IsNormal.selectorsWith_eq {entries : List HideEntry} (h : IsNormal entries) {e : HideEntry}
    (he : e ∈ entries) : selectorsWith entries e.scope = e.selectors := by
  rw [selectorsWith, filter_scope_eq_singleton h.distinct he, List.flatMap_singleton,
    foldl_appendNew_of_nodup (by simpa using h.nodup e he), List.nil_append]

theorem IsNormal.mem_mergeByScope_iff {entries : List HideEntry} (h : IsNormal entries)
    {e : HideEntry} : e ∈ mergeByScope entries ↔ e ∈ entries := by
  rw [mem_mergeByScope]
  constructor
  · rintro ⟨hmem, hselectors⟩
    obtain ⟨other, hother, hscope⟩ := List.mem_map.1 hmem
    have heq : other = e := by
      obtain ⟨scope, selectors⟩ := e
      obtain rfl : other.scope = scope := hscope
      obtain rfl : selectors = other.selectors := hselectors.trans (h.selectorsWith_eq hother)
      rfl
    exact heq ▸ hother
  · exact fun he => ⟨List.mem_map.2 ⟨e, he, rfl⟩, (h.selectorsWith_eq he).symm⟩

theorem IsNormal.mergeByScope_eq_self {entries : List HideEntry} (h : IsNormal entries) :
    mergeByScope entries = entries :=
  eq_of_ascending (isNormal_mergeByScope entries).ascending h.ascending fun _ =>
    h.mem_mergeByScope_iff

theorem mergeBySelector_mergeBySelector (entries : List HideEntry) :
    mergeBySelector (mergeBySelector entries) = mergeBySelector entries :=
  mergeBySelector_congr (sameUnions_mergeBySelector entries)

theorem mergeBySelector_mergeByScope (entries : List HideEntry) :
    mergeBySelector (mergeByScope entries) = mergeBySelector entries :=
  mergeBySelector_congr (SameUnions.of_mem_iff fun _ => mem_declarations_mergeByScope)

/-- The entries show the selector on the page, each entry by itself. -/
def Shows (entries : List HideEntry) (page : Domain) (selector : String) : Prop :=
  ∃ e ∈ entries, e.scope.contains page = true ∧ selector ∈ e.selectors

theorem shows_iff_declarations {entries : List HideEntry} {page : Domain} {selector : String} :
    Shows entries page selector ↔
      ∃ scope, (selector, scope) ∈ declarations entries ∧ scope.contains page = true := by
  simp only [mem_declarations]
  constructor
  · rintro ⟨e, he, hpage, hselector⟩
    exact ⟨e.scope, ⟨e, he, rfl, hselector⟩, hpage⟩
  · rintro ⟨_, ⟨e, he, rfl, hselector⟩, hpage⟩
    exact ⟨e, he, hpage, hselector⟩

/-- What the two passes do to any entries, one behind the other and each one twice. -/
theorem merge_laws (entries : List HideEntry) :
    mergeBySelector (mergeByScope entries) = mergeBySelector entries ∧
    mergeBySelector (mergeBySelector entries) = mergeBySelector entries ∧
    mergeByScope (mergeByScope entries) = mergeByScope entries ∧
    ((mergeByScope entries).Pairwise fun a b => a.scope ≠ b.scope) ∧
    (∀ e ∈ mergeByScope entries, e.selectors.Nodup) ∧
    ∀ page selector, Shows (mergeByScope entries) page selector ↔ Shows entries page selector := by
  have hnormal := isNormal_mergeByScope entries
  refine ⟨mergeBySelector_mergeByScope entries, mergeBySelector_mergeBySelector entries,
    hnormal.mergeByScope_eq_self, hnormal.distinct, hnormal.nodup, fun page selector => ?_⟩
  simp only [shows_iff_declarations, mem_declarations_mergeByScope]

end AdFilter.HideEntry
