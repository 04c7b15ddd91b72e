import AdFilter.Proofs.Text.Fields

/-!
# Words

The words of a text are told by where blanks stand around them (`words_eq_iff`): each one is a run
without blanks between two blanks, or an end of the text.
-/

namespace AdFilter.Text

def IsBlank (s : List Char) : Prop :=
  ∀ c ∈ s, isBlank c = true

structure IsWord (s : List Char) : Prop where
  ne_nil : s ≠ []
  not_blank : ∀ c ∈ s, isBlank c = false

theorem IsWord.newline_not_mem {word : List Char} (h : IsWord word) : '\n' ∉ word :=
  fun hmem => absurd (h.not_blank '\n' hmem) (by decide)

/-- The text holds these words, and nothing else but blanks. -/
inductive HasWords : List Char → List (List Char) → Prop where
  | blank {s : List Char} : IsBlank s → HasWords s []
  | word {gap word rest : List Char} {words : List (List Char)} : IsBlank gap → IsWord word →
      (∀ c ∈ rest.head?, isBlank c = true) → HasWords rest words →
      HasWords (gap ++ word ++ rest) (word :: words)

theorem HasWords.isWord {s : List Char} {ws : List (List Char)} (h : HasWords s ws) :
    ∀ word ∈ ws, IsWord word := by
  induction h with
  | blank => simp
  | word _ hword _ _ ih => exact List.forall_mem_cons.2 ⟨hword, ih⟩

theorem words_append_cons {c : Char} (hc : isBlank c = true) (s t : List Char) :
    words (s ++ c :: t) = words s ++ words t := by
  rw [words, split_append_cons hc, List.filter_append]
  rfl

theorem words_cons_of_isBlank {c : Char} (hc : isBlank c = true) (s : List Char) :
    words (c :: s) = words s :=
  words_append_cons hc [] s

theorem words_append_of_isBlank {gap : List Char} (h : IsBlank gap) (s : List Char) :
    words (gap ++ s) = words s := by
  induction gap with
  | nil => rfl
  | cons c gap ih =>
    obtain ⟨hc, hgap⟩ := List.forall_mem_cons.1 h
    exact (words_cons_of_isBlank hc (gap ++ s)).trans (ih hgap)

theorem words_of_isBlank {s : List Char} (h : IsBlank s) : words s = [] := by
  rw [← List.append_nil s, words_append_of_isBlank h]
  rfl

theorem words_of_isWord {word : List Char} (h : IsWord word) : words word = [word] := by
  rw [words, split_eq_singleton h.not_blank]
  simp [h.ne_nil]

theorem words_append_of_isWord {word rest : List Char} (h : IsWord word)
    (hrest : ∀ c ∈ rest.head?, isBlank c = true) : words (word ++ rest) = word :: words rest := by
  cases rest with
  | nil =>
    rw [List.append_nil]
    exact words_of_isWord h
  | cons c rest =>
    have hc : isBlank c = true := hrest c rfl
    rw [words_append_cons hc, words_of_isWord h, words_cons_of_isBlank hc, List.singleton_append]

theorem HasWords.cons_of_isBlank {c : Char} {s : List Char} {ws : List (List Char)}
    (hc : isBlank c = true) (h : HasWords s ws) : HasWords (c :: s) ws := by
  cases h with
  | blank hblank => exact .blank (List.forall_mem_cons.2 ⟨hc, hblank⟩)
  | word hgap hword hrest hwords =>
    rw [← List.cons_append, ← List.cons_append]
    exact .word (List.forall_mem_cons.2 ⟨hc, hgap⟩) hword hrest hwords

theorem exists_isWord {c : Char} (hc : isBlank c = false) (s : List Char) :
    ∃ word rest, word ++ rest = c :: s ∧ IsWord word ∧ ∀ d ∈ rest.head?, isBlank d = true := by
  refine ⟨(c :: s).takeWhile (!isBlank ·), (c :: s).dropWhile (!isBlank ·),
    List.takeWhile_append_dropWhile, ⟨?_, ?_⟩, ?_⟩
  · simp [hc]
  · intro d hd
    simpa using List.mem_takeWhile_imp hd
  · intro d hd
    simpa using head?_dropWhile_eq_false (c :: s) d hd

/-- Every text is made of its words and of blanks. -/
theorem hasWords_words (s : List Char) : HasWords s (words s) := by
  -- behind a word the rest is any number of characters shorter
  induction hlength : s.length using Nat.strongRecOn generalizing s with
  | ind n ih =>
    cases s with
    | nil => exact .blank (by simp [IsBlank])
    | cons c s =>
      rw [List.length_cons] at hlength
      cases hc : isBlank c with
      | true =>
        rw [words_cons_of_isBlank hc]
        exact (ih s.length (by omega) s rfl).cons_of_isBlank hc
      | false =>
        obtain ⟨word, rest, htext, hword, hrest⟩ := exists_isWord hc s
        have hshorter : rest.length < n := by
          have hpos := List.length_pos_of_ne_nil hword.ne_nil
          have htotal := congrArg List.length htext
          rw [List.length_append, List.length_cons] at htotal
          omega
        rw [← htext, words_append_of_isWord hword hrest]
        have hnoGap : IsBlank [] := by simp [IsBlank]
        exact .word hnoGap hword hrest (ih rest.length hshorter rest rfl)

theorem words_eq_iff {s : List Char} {ws : List (List Char)} : words s = ws ↔ HasWords s ws := by
  constructor
  · rintro rfl
    exact hasWords_words s
  · intro h
    induction h with
    | blank hblank => exact words_of_isBlank hblank
    | word hgap hword hrest _ ih =>
      rw [List.append_assoc, words_append_of_isBlank hgap, words_append_of_isWord hword hrest, ih]

end AdFilter.Text
