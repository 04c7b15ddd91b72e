import AdFilter.Text.Split

/-!
# Pieces and runs

A piece of a text stands in it as a whole (`infix_of_mem_split`). The pieces at a separator make up
the text again when they are joined (`intercalate_split`), so pieces at the end of a text are the
pieces of what stands behind a separator (`split_suffix_iff`). Where a text starts with a run of
characters of one kind that ends in a character of another kind, the run is known by the text
(`run_unique`).
-/

namespace AdFilter.Text

section
variable {α β : Type}

theorem split_eq_singleton {p : α → Bool} {s : List α} (h : ∀ c ∈ s, p c = false) :
    split p s = [s] := by
  induction s with
  | nil => rfl
  | cons c s ih =>
    obtain ⟨hc, hs⟩ := List.forall_mem_cons.1 h
    rw [split_cons, if_neg (by simp [hc]), ih hs]
    rfl

/-- A piece of a text stands in it as a whole. The first one stands at the start, which is what
makes the induction go through where it grows. -/
theorem infix_of_mem_split {p : α → Bool} {s run : List α} (h : run ∈ split p s) : run <:+: s := by
  suffices hall : (∀ first ∈ (split p s).head?, first <+: s) ∧ ∀ run ∈ split p s, run <:+: s from
    hall.2 run h
  clear h
  induction s with
  | nil => simp
  | cons c s ih =>
    obtain ⟨ihhead, ih⟩ := ih
    rw [split_cons]
    split
    · refine ⟨by simp, ?_⟩
      intro run hrun
      rcases List.mem_cons.1 hrun with rfl | hrun
      · exact List.nil_infix
      · exact List.infix_cons (ih run hrun)
    · cases hs : split p s with
      | nil => exact absurd hs (split_ne_nil p s)
      | cons first others =>
        rw [hs] at ihhead ih
        have hfirst : c :: first <+: c :: s := by
          rw [List.prefix_cons_inj]
          exact ihhead first rfl
        refine ⟨by simpa using hfirst, ?_⟩
        intro run hrun
        rcases List.mem_cons.1 hrun with rfl | hrun
        · exact hfirst.isInfix
        · exact List.infix_cons (ih run (List.mem_cons_of_mem _ hrun))

theorem not_of_mem_split {p : α → Bool} {s run : List α} (h : run ∈ split p s) {c : α}
    (hc : c ∈ run) : p c = false := by
  have hmem : c ∈ (split p s).flatten := List.mem_flatten_of_mem h hc
  rw [flatten_split] at hmem
  simpa using (List.mem_filter.1 hmem).2

theorem split_append_cons {p : α → Bool} {c : α} (hc : p c = true) (s t : List α) :
    split p (s ++ c :: t) = split p s ++ split p t := by
  induction s with
  | nil => simp [split_cons, hc]
  | cons d s ih =>
    rw [List.cons_append, split_cons, split_cons, ih]
    split
    · rfl
    · cases hs : split p s with
      | nil => exact absurd hs (split_ne_nil p s)
      | cons piece pieces => rfl

theorem split_flatMap_concat {p : α → Bool} {c : α} (hc : p c = true) {pieces : List (List α)}
    (h : ∀ piece ∈ pieces, ∀ d ∈ piece, p d = false) :
    split p (pieces.flatMap (· ++ [c])) = pieces ++ [[]] := by
  induction pieces with
  | nil => rfl
  | cons piece pieces ih =>
    obtain ⟨hpiece, hrest⟩ := List.forall_mem_cons.1 h
    rw [List.flatMap_cons, List.append_assoc, List.singleton_append, split_append_cons hc,
      split_eq_singleton hpiece, ih hrest, List.singleton_append, List.cons_append]

theorem map_split {p : α → Bool} {q : β → Bool} {f : α → β} (h : ∀ c, q (f c) = p c)
    (s : List α) : (split p s).map (List.map f) = split q (s.map f) := by
  induction s with
  | nil => rfl
  | cons c s ih =>
    rw [List.map_cons, split_cons, split_cons, h, ← ih]
    split
    · rfl
    · cases split p s <;> rfl

theorem head?_dropWhile_eq_false {p : α → Bool} (s : List α) :
    ∀ c ∈ (s.dropWhile p).head?, p c = false := by
  intro c hc
  have hnot := List.head?_dropWhile_not p s
  rw [Option.mem_def.1 hc] at hnot
  simpa using hnot

/-- What stands in a text and does not end in its last part stands in the first part. -/
theorem infix_of_infix_append {mark a b : List α} (h : mark <:+: a ++ b)
    (hlast : ∀ c ∈ mark.getLast?, c ∉ b) : mark <:+: a := by
  rcases List.eq_nil_or_concat mark with rfl | ⟨mark, last, rfl⟩
  · exact List.nil_infix
  · rw [List.concat_eq_append, List.getLast?_concat] at hlast
    obtain ⟨x, y, hxy⟩ := h
    rw [List.concat_eq_append, List.append_eq_append_iff] at hxy
    rcases hxy with ⟨rest, ha, -⟩ | ⟨rest, ha, hb⟩
    · exact ⟨x, rest, by rw [ha, List.concat_eq_append]⟩
    · rcases List.eq_nil_or_concat rest with rfl | ⟨rest, c, rfl⟩
      · exact ⟨x, [], by simpa using ha⟩
      · rw [List.concat_eq_append, ← List.append_assoc, ← List.append_assoc] at ha
        obtain ⟨-, hc⟩ := List.append_inj' ha rfl
        cases hc
        exact absurd (by simp [hb]) (hlast last rfl)

/-- What stands in a text and does not start in its first part stands in the last part. -/
theorem infix_of_append {mark a b : List α} (h : mark <:+: a ++ b)
    (hhead : ∀ c ∈ mark.head?, c ∉ a) : mark <:+: b := by
  rw [← List.reverse_infix, List.reverse_append] at h
  exact List.reverse_infix.1 (infix_of_infix_append h (by simpa using hhead))

theorem infix_append_cons_iff {mark a b : List α} {c : α} (hc : c ∉ mark) :
    mark <:+: a ++ c :: b ↔ mark <:+: a ∨ mark <:+: b := by
  constructor
  · intro h
    rcases List.infix_append_iff.1 h with h | h | ⟨left, right, rfl, hleft, hright⟩
    · exact .inl h
    · refine .inr (infix_of_append (a := [c]) h fun d hd hmem => hc ?_)
      rw [← List.mem_singleton.1 hmem]
      exact List.mem_of_head? hd
    · cases right with
      | nil => exact .inl (by simpa using hleft.isInfix)
      | cons d right =>
        obtain ⟨rfl, -⟩ := List.cons_prefix_cons.1 hright
        simp at hc
  · rintro (h | h)
    · exact h.trans (List.prefix_append _ _).isInfix
    · exact h.trans ((List.suffix_cons _ _).trans (List.suffix_append _ _)).isInfix

theorem infix_intercalate_iff {mark : List α} {c : α} (hc : c ∉ mark) {pieces : List (List α)}
    (hne : pieces ≠ []) : mark <:+: [c].intercalate pieces ↔ ∃ piece ∈ pieces, mark <:+: piece := by
  induction pieces with
  | nil => exact absurd rfl hne
  | cons piece pieces ih =>
    cases pieces with
    | nil => simp
    | cons piece' pieces =>
      rw [List.intercalate_cons_cons, List.append_assoc, List.singleton_append,
        infix_append_cons_iff hc, ih (by simp)]
      simp only [List.mem_cons, exists_eq_or_imp]

theorem intercalate_append {sep : List α} {a b : List (List α)} (ha : a ≠ []) (hb : b ≠ []) :
    sep.intercalate (a ++ b) = sep.intercalate a ++ sep ++ sep.intercalate b := by
  induction a with
  | nil => exact absurd rfl ha
  | cons piece a ih =>
    rw [List.cons_append, List.intercalate_cons_of_ne_nil (by simp [hb])]
    cases a with
    | nil => rw [List.nil_append, List.intercalate_singleton]
    | cons piece' a =>
      rw [ih (by simp), List.intercalate_cons_cons]
      simp only [List.append_assoc]

variable [BEq α] [LawfulBEq α] {sep : α}

theorem split_of_not_mem {s : List α} (h : sep ∉ s) : split (· == sep) s = [s] :=
  split_eq_singleton fun _ hc => beq_eq_false_iff_ne.2 fun he => h (he ▸ hc)

/-- What stands behind a text without a separator goes to its last piece. -/
theorem split_append_of_not_mem (s : List α) {t : List α} (h : sep ∉ t) :
    ∃ front last, split (· == sep) s = front ++ [last] ∧
      split (· == sep) (s ++ t) = front ++ [last ++ t] := by
  induction s with
  | nil => exact ⟨[], [], rfl, split_of_not_mem h⟩
  | cons c s ih =>
    obtain ⟨front, last, hs, hst⟩ := ih
    rw [List.cons_append, split_cons, split_cons, hs, hst]
    split
    · exact ⟨[] :: front, last, rfl, rfl⟩
    · cases front with
      | nil => exact ⟨[], c :: last, rfl, rfl⟩
      | cons piece front => exact ⟨(c :: piece) :: front, last, rfl, rfl⟩

theorem intercalate_split (s : List α) : [sep].intercalate (split (· == sep) s) = s := by
  induction s with
  | nil => simp
  | cons c s ih =>
    rw [split_cons]
    split
    · next hc =>
      rw [List.intercalate_cons_of_ne_nil (split_ne_nil _ s), ih, eq_of_beq hc]
      rfl
    · cases hs : split (· == sep) s with
      | nil => exact absurd hs (split_ne_nil _ s)
      | cons piece pieces =>
        rw [hs] at ih
        rw [List.modifyHead_cons, ← ih]
        cases pieces with
        | nil => simp
        | cons piece' pieces => simp [List.intercalate_cons_cons]

/-- The pieces of one text are the last pieces of another exactly if it is that text, or what stands
in it behind a separator. -/
theorem split_suffix_iff {s t : List α} :
    split (· == sep) s <:+ split (· == sep) t ↔ s = t ∨ sep :: s <:+ t := by
  constructor
  · rintro ⟨front, hfront⟩
    have ht : [sep].intercalate (front ++ split (· == sep) s) = t := by
      rw [hfront, intercalate_split]
    by_cases hne : front = []
    · rw [hne, List.nil_append, intercalate_split] at ht
      exact .inl ht
    · rw [intercalate_append hne (split_ne_nil _ s), intercalate_split, List.append_assoc] at ht
      exact .inr ⟨_, ht⟩
  · rintro (rfl | ⟨front, rfl⟩)
    · exact List.suffix_refl _
    · rw [split_append_cons (p := (· == sep)) (beq_self_eq_true sep)]
      exact List.suffix_append _ _

end

/-- Two runs at the start of a text that are as long as can be are the same. -/
theorem run_unique {p : Char → Prop} {run run' rest rest' : List Char}
    (hrun : ∀ c ∈ run, p c) (hrun' : ∀ c ∈ run', p c) (hrest : ∀ c ∈ rest.head?, ¬p c)
    (hrest' : ∀ c ∈ rest'.head?, ¬p c) (h : run ++ rest = run' ++ rest') :
    run = run' ∧ rest = rest' := by
  induction run generalizing run' with
  | nil =>
    cases run' with
    | nil => exact ⟨rfl, h⟩
    | cons c run' =>
      rw [List.nil_append] at h
      exact absurd (hrun' c List.mem_cons_self) (hrest c (by simp [h]))
  | cons c run ih =>
    cases run' with
    | nil =>
      rw [List.nil_append] at h
      exact absurd (hrun c List.mem_cons_self) (hrest' c (by simp [← h]))
    | cons d run' =>
      obtain ⟨rfl, htails⟩ := List.cons.inj h
      obtain ⟨rfl, rfl⟩ := ih (fun c hc => hrun c (List.mem_cons_of_mem _ hc))
        (fun c hc => hrun' c (List.mem_cons_of_mem _ hc)) htails
      exact ⟨rfl, rfl⟩

end AdFilter.Text
