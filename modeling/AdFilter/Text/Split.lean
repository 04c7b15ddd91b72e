import AdFilter.Text.Blank

/-!
# Cutting a text into pieces

`split` cuts at every member of a class, `splitOnce` at the first occurrence of a separator,
and `lines` and `words` are the two ways in which whole texts are read. `flatten_split` says that
nothing but the separators is lost.
-/

namespace AdFilter.Text

variable {α : Type}

/-- The pieces between the members that satisfy `p`: one more than there are such members. -/
def split (p : α → Bool) (s : List α) : List (List α) :=
  s.foldr (fun c pieces => if p c then [] :: pieces else pieces.modifyHead (c :: ·)) [[]]

@[simp]
theorem split_nil (p : α → Bool) : split p [] = [[]] :=
  rfl

theorem split_cons (p : α → Bool) (c : α) (s : List α) :
    split p (c :: s) = if p c then [] :: split p s else (split p s).modifyHead (c :: ·) :=
  rfl

theorem split_ne_nil (p : α → Bool) (s : List α) : split p s ≠ [] := by
  induction s with
  | nil => simp
  | cons c s ih =>
    rw [split_cons]
    split
    · simp
    · cases h : split p s with
      | nil => exact absurd h ih
      | cons piece pieces => simp

theorem flatten_split (p : α → Bool) (s : List α) :
    (split p s).flatten = s.filter (fun c => !p c) := by
  induction s with
  | nil => rfl
  | cons c s ih =>
    rw [split_cons]
    cases hc : p c with
    | true => simp [hc, ih]
    | false =>
      cases h : split p s with
      | nil => exact absurd h (split_ne_nil p s)
      | cons piece pieces => simp [hc, ← ih, h]

/-- The text before and after the first occurrence of a separator. -/
def splitOnce (sep : List Char) : List Char → Option (List Char × List Char)
  | [] => if sep.isEmpty then some ([], []) else none
  | c :: s =>
    if sep.isPrefixOf (c :: s) then
      some ([], (c :: s).drop sep.length)
    else
      (splitOnce sep s).map fun (before, after) => (c :: before, after)

theorem eq_append_of_splitOnce {sep s before after : List Char}
    (h : splitOnce sep s = some (before, after)) : s = before ++ sep ++ after := by
  induction s generalizing before with
  | nil =>
    simp only [splitOnce, List.isEmpty_iff] at h
    split at h
    · simp_all
    · cases h
  | cons c s ih =>
    rw [splitOnce] at h
    split at h
    · rename_i hp
      obtain ⟨t, ht⟩ := List.isPrefixOf_iff_prefix.1 hp
      simp only [Option.some.injEq, Prod.mk.injEq] at h
      obtain ⟨rfl, rfl⟩ := h
      simp [← ht]
    · obtain ⟨⟨b, a⟩, hb, he⟩ := Option.map_eq_some_iff.1 h
      simp only [Prod.mk.injEq] at he
      obtain ⟨rfl, rfl⟩ := he
      simp [ih hb]

def dropReturn (line : List Char) : List Char :=
  if line.getLast? = some '\r' then line.dropLast else line

/-- The lines of a text. A line ends at a line feed, which is dropped together with one carriage
return right before it; what follows the last line feed is a line only if it is not empty. -/
def lines (s : List Char) : List (List Char) :=
  let pieces := split (· == '\n') s
  let unfinished := pieces.getLastD []
  pieces.dropLast.map dropReturn ++ if unfinished.isEmpty then [] else [unfinished]

/-- The longest pieces of a text that hold no blank character. -/
def words (s : List Char) : List (List Char) :=
  (split isBlank s).filter (!·.isEmpty)

end AdFilter.Text
