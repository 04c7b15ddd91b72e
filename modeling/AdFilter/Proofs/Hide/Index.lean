import AdFilter.Hide.Index
import AdFilter.Proofs.Hide.Merge

/-!
# Merging early, late and again

The entries of an index are inserted and merged in any order. The invariant of all such runs is that
what is left of the entries has the unions of scopes that the inserted ones have (`Holds`), so where
a run ends with merging by scope, the merges before it have changed nothing.
-/

namespace AdFilter.HideIndex

open HideEntry (declarations SameUnions)

@[ext]
theorem ext {a b : HideIndex} (hentries : a.entries = b.entries) (hstage : a.stage = b.stage) :
    a = b := by
  cases a; cases b; cases hentries; cases hstage; rfl

inductive Change where
  | insert (e : HideEntry)
  | mergeBySelector
  | mergeByScope

def change (h : HideIndex) : Change → HideIndex
  | .insert e => h.insert e
  | .mergeBySelector => h.mergeBySelector
  | .mergeByScope => h.mergeByScope

def afterChanges (h : HideIndex) (changes : List Change) : HideIndex :=
  changes.foldl change h

def Change.inserted? : Change → Option HideEntry
  | .insert e => some e
  | .mergeBySelector | .mergeByScope => none

def insertedBy (changes : List Change) : List HideEntry :=
  changes.filterMap Change.inserted?

/-- What the index has made of the entries that were inserted into it. -/
def Holds (h : HideIndex) (inserted : List HideEntry) : Prop :=
  match h.stage with
  | .raw => SameUnions (declarations h.entries.toList) (declarations inserted)
  | .bySelector => h.entries.toList = HideEntry.mergeBySelector inserted
  | .byScope => h.entries.toList = HideEntry.mergeByScope (HideEntry.mergeBySelector inserted)

section
variable {h : HideIndex} {inserted : List HideEntry}

theorem Holds.empty : Holds {} [] :=
  SameUnions.of_mem_iff fun _ => Iff.rfl

theorem Holds.sameUnions (hholds : h.Holds inserted) :
    SameUnions (declarations h.entries.toList) (declarations inserted) := by
  unfold Holds at hholds
  split at hholds
  · exact hholds
  · rw [hholds]
    exact HideEntry.sameUnions_mergeBySelector inserted
  · rw [hholds]
    exact (SameUnions.of_mem_iff fun _ => HideEntry.mem_declarations_mergeByScope).trans
      (HideEntry.sameUnions_mergeBySelector inserted)

/-! ## One change -/

theorem Holds.insert (hholds : h.Holds inserted) (e : HideEntry) :
    (h.insert e).Holds (inserted ++ [e]) := by
  have hunions := hholds.sameUnions.append_right (declarations [e])
  rw [← HideEntry.declarations_append, ← HideEntry.declarations_append, ← Array.toList_push]
    at hunions
  exact hunions

theorem Holds.mergeBySelector (hholds : h.Holds inserted) : h.mergeBySelector.Holds inserted := by
  have hunions := hholds.sameUnions
  obtain ⟨entries, stage⟩ := h
  cases stage with
  | raw => exact HideEntry.mergeBySelector_congr hunions
  | bySelector => exact hholds
  | byScope => exact hholds

theorem Holds.mergeByScope (hholds : h.Holds inserted) : h.mergeByScope.Holds inserted := by
  have hselected := hholds.mergeBySelector
  obtain ⟨entries, stage⟩ := h
  cases stage with
  | raw => exact congrArg HideEntry.mergeByScope hselected
  | bySelector => exact congrArg HideEntry.mergeByScope hselected
  | byScope => exact hholds

theorem Holds.change (hholds : h.Holds inserted) (c : Change) :
    (h.change c).Holds (inserted ++ c.inserted?.toList) := by
  cases c with
  | insert e => exact hholds.insert e
  | mergeBySelector =>
    rw [Change.inserted?, Option.toList_none, List.append_nil]
    exact hholds.mergeBySelector
  | mergeByScope =>
    rw [Change.inserted?, Option.toList_none, List.append_nil]
    exact hholds.mergeByScope

/-! ## Runs -/

theorem Holds.afterChanges (hholds : h.Holds inserted) (changes : List Change) :
    (h.afterChanges changes).Holds (inserted ++ insertedBy changes) := by
  induction changes generalizing h inserted with
  | nil =>
    rw [insertedBy, List.filterMap_nil, List.append_nil]
    exact hholds
  | cons c changes ih =>
    have hrest := ih (hholds.change c)
    have hinserted : insertedBy (c :: changes) = c.inserted?.toList ++ insertedBy changes := by
      unfold insertedBy
      rw [List.filterMap_cons]
      cases c.inserted? <;> rfl
    rwa [List.append_assoc, ← hinserted] at hrest

theorem holds_afterChanges (changes : List Change) :
    (HideIndex.afterChanges {} changes).Holds (insertedBy changes) :=
  Holds.empty.afterChanges changes

theorem Holds.foldl_insert (hholds : h.Holds inserted) (entries : List HideEntry) :
    (entries.foldl HideIndex.insert h).Holds (inserted ++ entries) := by
  induction entries generalizing h inserted with
  | nil =>
    rw [List.append_nil]
    exact hholds
  | cons e entries ih =>
    have hrest := ih (hholds.insert e)
    rwa [List.append_assoc] at hrest

theorem foldl_insert (h : HideIndex) (entries : List HideEntry) :
    (entries.foldl HideIndex.insert h).entries.toList = h.entries.toList ++ entries ∧
      (h.stage = .raw → (entries.foldl HideIndex.insert h).stage = .raw) := by
  induction entries generalizing h with
  | nil => simp
  | cons e entries ih =>
    obtain ⟨hentries, hstage⟩ := ih (h.insert e)
    refine ⟨?_, fun _ => hstage rfl⟩
    rw [List.foldl_cons, hentries]
    simp [HideIndex.insert]

theorem stage_mergeByScope (h : HideIndex) : h.mergeByScope.stage = .byScope := by
  obtain ⟨entries, stage⟩ := h
  cases stage <;> rfl

theorem Holds.entries_mergeByScope (hholds : h.Holds inserted) :
    h.mergeByScope.entries.toList =
      HideEntry.mergeByScope (HideEntry.mergeBySelector inserted) := by
  have hmerged := hholds.mergeByScope
  unfold Holds at hmerged
  rwa [stage_mergeByScope] at hmerged

/-- Once merged by scope, an index is known by the entries that were inserted into it. -/
theorem Holds.mergeByScope_eq (hholds : h.Holds inserted) {h' : HideIndex}
    (hholds' : h'.Holds inserted) : h.mergeByScope = h'.mergeByScope := by
  apply HideIndex.ext
  · apply Array.toList_inj.1
    rw [hholds.entries_mergeByScope, hholds'.entries_mergeByScope]
  · rw [stage_mergeByScope, stage_mergeByScope]

/-- To finalize entries that were not merged gives an index that is known by their unions of scopes. -/
theorem finalize_congr {a b : HideIndex} (ha : a.stage = .raw) (hb : b.stage = .raw)
    (h : SameUnions (declarations a.entries.toList) (declarations b.entries.toList))
    (byScope : Bool) : a.finalize byScope = b.finalize byScope := by
  have hselected : a.mergeBySelector = b.mergeBySelector := by
    unfold HideIndex.mergeBySelector
    rw [ha, hb, HideEntry.mergeBySelector_congr h]
  cases byScope with
  | false => exact hselected
  | true =>
    show a.mergeByScope = b.mergeByScope
    unfold HideIndex.mergeByScope
    rw [ha, hb, hselected]

end

/-- Where a run ends with merging by scope, its result is known by the set of entries that were
inserted: neither their order nor repeats matter, and the merges in between do not either. -/
theorem entries_afterChanges_concat_mergeByScope (changes : List Change)
    (entries : List HideEntry) (h : ∀ e, e ∈ entries ↔ e ∈ insertedBy changes) :
    let merged := afterChanges {} (changes ++ [.mergeByScope])
    merged.entries.toList = HideEntry.mergeByScope (HideEntry.mergeBySelector entries) ∧
      merged = ((insertedBy changes).foldl HideIndex.insert {}).mergeByScope := by
  intro merged
  have hmerged : merged = (HideIndex.afterChanges {} changes).mergeByScope := by
    unfold merged afterChanges
    rw [List.foldl_append]
    rfl
  have hholds := holds_afterChanges changes
  have hsame : HideEntry.mergeBySelector (insertedBy changes) =
      HideEntry.mergeBySelector entries := by
    apply HideEntry.mergeBySelector_congr
    apply SameUnions.of_mem_iff
    intro declared
    obtain ⟨selector, scope⟩ := declared
    simp only [HideEntry.mem_declarations, h]
  rw [hmerged]
  refine ⟨?_, hholds.mergeByScope_eq (Holds.empty.foldl_insert (insertedBy changes))⟩
  rw [hholds.entries_mergeByScope, hsame]

/-- An index that is merged, filled up and merged again, against its entries in another order. -/
theorem entries_afterChanges_concat_mergeByScope_split :
    let banner : HideEntry := { scope := {}, selectors := [".ad", ".banner"] }
    let popup : HideEntry := {
      scope := { domains := .ofList [.ofHost "a.test"] }, selectors := [".ad"] }
    (afterChanges {} [.insert banner, .mergeByScope, .insert popup, .mergeBySelector,
      .mergeByScope]).entries.toList.map (·.selectors) = [[".banner"], [".ad"]] := by
  intro banner popup
  have hentries : ∀ e, e ∈ [popup, banner, popup] ↔
      e ∈ insertedBy [.insert banner, .mergeByScope, .insert popup, .mergeBySelector] := by
    intro e
    simp [insertedBy, Change.inserted?]
    grind
  have hmerged := (entries_afterChanges_concat_mergeByScope _ _ hentries).1
  rw [List.cons_append, List.cons_append, List.cons_append, List.cons_append, List.nil_append]
    at hmerged
  rw [hmerged]
  decide +kernel

end AdFilter.HideIndex
