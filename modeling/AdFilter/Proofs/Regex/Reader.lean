import AdFilter.Regex.Reader
import Mathlib.Data.List.Forall2

/-!
# Texts that are read as items

`Reads text items` says that a text, wherever between two items it stands, is read as some items and
leaves everything else as it is. Two such texts in a row are read as the items of both
(`Reads.append`): neither can close, repeat or go on with what the other one has opened, because each
of them starts and ends between two items, and behind a repetition as well as elsewhere.
-/

namespace AdFilter.Regex

/-- The text is read as some items, from every state between two items. -/
def Reads (text : List Char) (items : List Item) : Prop :=
  ∀ r : Reader, r.mode.isResting = true → ∃ mode : Mode, mode.isResting = true ∧
    r.run text = some { r with mode, items := items.reverse ++ r.items }

theorem Reader.run_append (r : Reader) (s t : List Char) :
    r.run (s ++ t) = (r.run s).bind fun r => r.run t := by
  simp [run, List.foldlM_append, Option.bind_eq_bind]

theorem reads_nil : Reads [] [] := by
  intro r hr
  exact ⟨r.mode, hr, rfl⟩

theorem Reads.append {s t : List Char} {items others : List Item} (hs : Reads s items)
    (ht : Reads t others) : Reads (s ++ t) (items ++ others) := by
  intro r hr
  obtain ⟨mode, hmode, hrun⟩ := hs r hr
  obtain ⟨mode', hmode', hrun'⟩ := ht { r with mode, items := items.reverse ++ r.items } hmode
  refine ⟨mode', hmode', ?_⟩
  rw [Reader.run_append, hrun, Option.bind_some, hrun']
  simp

theorem Reads.flatten {α : Type} {items : α → List Item} {as : List α}
    {texts : List (List Char)} (h : List.Forall₂ (fun a text => Reads text (items a)) as texts) :
    Reads texts.flatten (as.flatMap items) := by
  induction h with
  | nil => exact reads_nil
  | cons hread _ ih => exact hread.append ih

theorem Reads.read_eq {text : List Char} {items : List Item} (h : Reads text items) :
    read text = some [items] := by
  obtain ⟨mode, hmode, hrun⟩ := h {} rfl
  simp [read, hrun, Reader.finish, Reader.allBranches, hmode]

/-! ## Texts that start an item -/

/-- Behind a repetition, only a question mark is not read as anywhere else between two items. -/
theorem Reader.step_of_resting {r : Reader} {c : Char} (hr : r.mode.isResting = true)
    (hc : c ≠ '?') : r.step c = r.start c := by
  obtain ⟨mode, items, branches, outer⟩ := r
  cases mode with
  | between => rfl
  | repeated => exact if_neg hc
  | _ => cases hr

theorem reads_cons {c : Char} {text : List Char} {items : List Item} (hc : c ≠ '?')
    (h : ∀ r : Reader, ∃ mode : Mode, mode.isResting = true ∧
      ((r.start c).bind fun r => r.run text) =
        some { r with mode, items := items.reverse ++ r.items }) :
    Reads (c :: text) items := by
  intro r hr
  have hrun : r.run (c :: text) = (r.start c).bind fun r => r.run text := by
    rw [← Reader.step_of_resting hr hc]
    rfl
  rw [hrun]
  exact h r

/-- A character that is escaped where it has to be is read as itself. -/
theorem reads_escape (c : Char) : Reads (escape c) [.char c] := by
  by_cases hc : c ∈ metaCharacters
  · rw [escape, if_pos hc]
    refine reads_cons (by decide) fun r => ⟨.between, rfl, ?_⟩
    simp [Reader.start, Reader.run, Reader.step, Reader.add, hc]
  · rw [escape, if_neg hc]
    simp only [metaCharacters, List.mem_cons, List.not_mem_nil, or_false, not_or] at hc
    refine reads_cons (by simp [hc]) fun r => ⟨.between, rfl, ?_⟩
    simp [Reader.start, Reader.run, Reader.add, hc]

end AdFilter.Regex
