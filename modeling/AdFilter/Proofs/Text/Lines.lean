import AdFilter.Proofs.Text.Split

/-!
# Lines and blanks

The lines of a text are told by its first line feed and the text behind it
(`lines_append_newline`), so a text behind one that ends with a line adds its own lines
(`lines_append`). What stands at the end of a line is lost when the line is trimmed.
-/

namespace AdFilter.Text

theorem lines_of_newline_not_mem {a : List Char} (h : '\n' ∉ a) :
    lines a = if a.isEmpty then [] else [a] := by
  unfold lines
  rw [split_of_not_mem h]
  rfl

/-- The pieces in front of a line feed are all lines, also the last one if it is empty. -/
theorem lines_append_cons (a b : List Char) :
    lines (a ++ '\n' :: b) = (split (· == '\n') a).map dropReturn ++ lines b := by
  unfold lines
  rw [split_append_cons (p := (· == '\n')) rfl]
  cases hb : split (· == '\n') b with
  | nil => exact absurd hb (split_ne_nil _ b)
  | cons piece pieces => simp [List.getLast?_cons]

theorem lines_append_newline {a : List Char} (h : '\n' ∉ a) (b : List Char) :
    lines (a ++ '\n' :: b) = dropReturn a :: lines b := by
  rw [lines_append_cons, split_of_not_mem h]
  rfl

theorem newline_not_mem_of_mem_lines {line s : List Char} (h : line ∈ lines s) : '\n' ∉ line := by
  have hpiece : ∀ piece ∈ split (· == '\n') s, '\n' ∉ piece := fun piece hpiece hmem => by
    simpa using not_of_mem_split hpiece hmem
  rcases List.mem_append.1 h with h | h
  · obtain ⟨piece, hmem, rfl⟩ := List.mem_map.1 h
    have hnot := hpiece piece (List.dropLast_subset _ hmem)
    unfold dropReturn
    split
    · exact fun hmem => hnot (List.dropLast_subset _ hmem)
    · exact hnot
  · split at h
    · cases h
    · rw [List.mem_singleton.1 h, List.getLastD_eq_getLast?,
        List.getLast?_eq_some_getLast (split_ne_nil _ s)]
      exact hpiece _ (List.getLast_mem (split_ne_nil _ s))

/-- Where a text ends with a line, another one can be put behind it. -/
theorem lines_append {a : List Char} (h : a = [] ∨ a.getLast? = some '\n') (b : List Char) :
    lines (a ++ b) = lines a ++ lines b := by
  rcases h with rfl | h
  · rfl
  · obtain ⟨front, rfl⟩ := List.getLast?_eq_some_iff.1 h
    rw [lines_append_cons, List.append_assoc, List.singleton_append, lines_append_cons]
    simp [lines]

theorem trim_append_blank {c : Char} (h : isBlank c = true) (s : List Char) :
    trim (s ++ [c]) = trim s := by
  rw [trim, trim, trimStart, trimStart, List.dropWhile_append]
  split
  · next hs => simp [List.isEmpty_iff.1 hs, h]
  · simp [trimEnd, h]

theorem trim_dropReturn (line : List Char) : trim (dropReturn line) = trim line := by
  unfold dropReturn
  split
  · next h =>
    obtain ⟨front, rfl⟩ := List.getLast?_eq_some_iff.1 h
    rw [List.dropLast_concat, trim_append_blank (by decide)]
  · rfl

end AdFilter.Text
