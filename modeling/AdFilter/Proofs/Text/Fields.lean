import AdFilter.Proofs.Text.Split
import Mathlib.Data.List.Forall2
import Mathlib.Data.List.TakeWhile

/-!
# Trimmed texts, cuts and fields

What it means to trim a text, to cut it and to read its fields, without the way in which this is
done. A trimmed text stands between two runs of blanks (`trim_eq_iff`), a text is cut where a mark
first stands in it (`splitOnce_eq_some_iff`), and its fields are what the pieces between separators
hold besides blanks (`isFields_iff`).
-/

namespace AdFilter.Text

/-! ## Trimmed texts -/

/-- The text neither starts nor ends with a blank. -/
def IsTrimmed (s : List Char) : Prop :=
  (∀ c ∈ s.head?, isBlank c = false) ∧ ∀ c ∈ s.getLast?, isBlank c = false

instance : DecidablePred IsTrimmed := fun s =>
  decidable_of_iff (s.head?.all (!isBlank ·) = true ∧ s.getLast?.all (!isBlank ·) = true)
    (by simp [IsTrimmed, Option.all_eq_true])

/-- The second text is the first one without the blanks around it. -/
def IsTrimOf (s t : List Char) : Prop :=
  IsTrimmed t ∧ ∃ lead trail, s = lead ++ t ++ trail ∧ (∀ c ∈ lead, isBlank c = true) ∧
    ∀ c ∈ trail, isBlank c = true

theorem IsTrimmed.append {s t : List Char} (hs : IsTrimmed s) (ht : IsTrimmed t) (hsne : s ≠ [])
    (htne : t ≠ []) (inner : List Char) : IsTrimmed (s ++ inner ++ t) := by
  constructor
  · rw [List.append_assoc, List.head?_append_of_ne_nil _ hsne]
    exact hs.1
  · rw [List.getLast?_append_of_ne_nil _ htne]
    exact ht.2

theorem dropWhile_isBlank {s t : List Char} (hs : ∀ c ∈ s, isBlank c = true)
    (ht : ∀ c ∈ t.head?, isBlank c = false) : (s ++ t).dropWhile isBlank = t := by
  rw [List.dropWhile_append_of_pos hs]
  cases t with
  | nil => rfl
  | cons c t => rw [List.dropWhile_cons, if_neg (by simp [ht c rfl])]

theorem trim_eq_of_isTrimOf {s t : List Char} (h : IsTrimOf s t) : trim s = t := by
  obtain ⟨⟨hhead, hlast⟩, lead, trail, rfl, hlead, htrail⟩ := h
  have hstart : trimStart (lead ++ t ++ trail) = (t ++ trail).dropWhile isBlank := by
    rw [trimStart, List.append_assoc, List.dropWhile_append_of_pos hlead]
  cases t with
  | nil =>
    have hall : trail.dropWhile isBlank = [] := by
      simpa using dropWhile_isBlank (t := []) htrail (by simp)
    rw [trim, hstart, List.nil_append, hall]
    rfl
  | cons c t =>
    have hkept : ((c :: t) ++ trail).dropWhile isBlank = (c :: t) ++ trail :=
      dropWhile_isBlank (s := []) (by simp) (by simpa using hhead)
    rw [trim, hstart, hkept, trimEnd, List.reverse_append,
      dropWhile_isBlank (fun d hd => htrail d (List.mem_reverse.1 hd))
        (by rw [List.head?_reverse]; exact hlast),
      List.reverse_reverse]

theorem exists_eq_trimEnd_append (s : List Char) :
    ∃ trail, s = trimEnd s ++ trail ∧ ∀ c ∈ trail, isBlank c = true := by
  refine ⟨(s.reverse.takeWhile isBlank).reverse, ?_, fun c hc => ?_⟩
  · rw [trimEnd, ← List.reverse_append, List.takeWhile_append_dropWhile, List.reverse_reverse]
  · exact List.mem_takeWhile_imp (List.mem_reverse.1 hc)

theorem isTrimOf_trim (s : List Char) : IsTrimOf s (trim s) := by
  have hstart : s = s.takeWhile isBlank ++ trimStart s := List.takeWhile_append_dropWhile.symm
  have hlead : ∀ c ∈ s.takeWhile isBlank, isBlank c = true := fun c hc =>
    List.mem_takeWhile_imp hc
  obtain ⟨trail, hend, htrail⟩ := exists_eq_trimEnd_append (trimStart s)
  rw [← trim] at hend
  refine ⟨⟨?_, ?_⟩, _, _, ?_, hlead, htrail⟩
  · intro c hc
    refine head?_dropWhile_eq_false s c ?_
    have hhead : (trimStart s).head? = some c := by
      rw [hend, List.head?_append, Option.mem_def.1 hc]
      rfl
    exact hhead
  · intro c hc
    rw [trim, trimEnd, List.getLast?_reverse] at hc
    exact head?_dropWhile_eq_false _ c hc
  · rw [List.append_assoc, ← hend]
    exact hstart

theorem trim_isInfix (s : List Char) : trim s <:+: s := by
  obtain ⟨-, lead, trail, heq, -⟩ := isTrimOf_trim s
  exact ⟨lead, trail, heq.symm⟩

theorem trim_eq_iff {s t : List Char} : trim s = t ↔ IsTrimOf s t :=
  ⟨fun h => h ▸ isTrimOf_trim s, trim_eq_of_isTrimOf⟩

theorem IsTrimmed.isTrimOf {s : List Char} (h : IsTrimmed s) : IsTrimOf s s :=
  ⟨h, [], [], by simp, by simp, by simp⟩

theorem IsTrimmed.trim_eq {s : List Char} (h : IsTrimmed s) : trim s = s :=
  trim_eq_of_isTrimOf h.isTrimOf

theorem isTrimmed_of_not_blank {s : List Char} (h : ∀ c ∈ s, isBlank c = false) : IsTrimmed s :=
  ⟨fun c hc => h c (List.mem_of_head? hc), fun c hc => h c (List.mem_of_getLast? hc)⟩

theorem trim_padded {lead s trail : List Char} (hlead : ∀ c ∈ lead, isBlank c = true)
    (htrail : ∀ c ∈ trail, isBlank c = true) : trim (lead ++ s ++ trail) = trim s := by
  obtain ⟨htrimmed, lead', trail', heq, hlead', htrail'⟩ := isTrimOf_trim s
  refine trim_eq_of_isTrimOf ⟨htrimmed, lead ++ lead', trail' ++ trail, ?_, ?_, ?_⟩
  · nth_rewrite 1 [heq]
    simp only [List.append_assoc]
  · exact List.forall_mem_append.2 ⟨hlead, hlead'⟩
  · exact List.forall_mem_append.2 ⟨htrail', htrail⟩

theorem trimStart_append_cons {c : Char} (hc : isBlank c = false) (s t : List Char) :
    trimStart (s ++ c :: t) = trimStart s ++ c :: t := by
  rw [trimStart, trimStart, List.dropWhile_append]
  split
  · next hnil =>
    rw [List.isEmpty_iff.1 hnil, List.dropWhile_cons, if_neg (by simp [hc]), List.nil_append]
  · rfl

theorem trimEnd_append_cons {c : Char} (hc : isBlank c = false) (s t : List Char) :
    trimEnd (s ++ c :: t) = s ++ c :: trimEnd t := by
  have hstart := trimStart_append_cons hc t.reverse s.reverse
  rw [trimStart, trimStart] at hstart
  rw [trimEnd, trimEnd, List.reverse_append, List.reverse_cons, List.append_assoc,
    List.singleton_append, hstart]
  simp

/-- Where a character is no blank, the text before it and the one behind it are trimmed apart. -/
theorem trim_append_cons {c : Char} (hc : isBlank c = false) (s t : List Char) :
    trim (s ++ c :: t) = trimStart s ++ c :: trimEnd t := by
  rw [trim, trimStart_append_cons hc, trimEnd_append_cons hc]

/-- What holds no blank stands in a text where it stands in the text without the blanks around
it. -/
theorem infix_trim_iff {mark s : List Char} (h : ∀ c ∈ mark, isBlank c = false) :
    mark <:+: trim s ↔ mark <:+: s := by
  obtain ⟨-, lead, trail, heq, hlead, htrail⟩ := isTrimOf_trim s
  have hnot : ∀ {blanks : List Char}, (∀ c ∈ blanks, isBlank c = true) → ∀ c ∈ mark, c ∉ blanks :=
    fun hblanks c hc hmem => by simpa [h c hc] using hblanks c hmem
  constructor
  · exact fun hmark => hmark.trans (trim_isInfix s)
  · intro hmark
    rw [heq] at hmark
    refine infix_of_append (infix_of_infix_append hmark fun c hc => ?_) fun c hc => ?_
    · exact hnot htrail c (List.mem_of_getLast? hc)
    · exact hnot hlead c (List.mem_of_head? hc)

/-- A map that leaves blanks alone can be made before a text is trimmed or after it. -/
theorem trim_map {f : Char → Char} (h : ∀ c, isBlank (f c) = isBlank c) (s : List Char) :
    trim (s.map f) = (trim s).map f := by
  have hdrop : ∀ s : List Char, (s.map f).dropWhile isBlank = (s.dropWhile isBlank).map f := by
    intro s
    rw [List.dropWhile_map]
    congr 2
    exact funext h
  rw [trim, trim, trimStart, trimStart, trimEnd, trimEnd, hdrop, ← List.map_reverse, hdrop,
    List.map_reverse]

/-! ## Cuts -/

/-- The text is cut at the first place where the mark stands in it. -/
structure CutAt (mark s before after : List Char) : Prop where
  eq_append : s = before ++ mark ++ after
  first : ∀ front back, s = front ++ mark ++ back → before.length ≤ front.length

theorem splitOnce_eq_none_iff {mark s : List Char} : splitOnce mark s = none ↔ ¬mark <:+: s := by
  induction s with
  | nil => simp [splitOnce]
  | cons c s ih =>
    rw [splitOnce, List.infix_cons_iff, ← List.isPrefixOf_iff_prefix]
    split
    · next hstart => simp [hstart]
    · next hstart => simp [hstart, ih]

theorem splitOnce_eq_none {c : Char} {mark s : List Char} (h : c ∉ s) :
    splitOnce (c :: mark) s = none :=
  splitOnce_eq_none_iff.2 fun hmark => h (hmark.subset List.mem_cons_self)

theorem CutAt.unique {mark s before after before' after' : List Char}
    (h : CutAt mark s before after) (h' : CutAt mark s before' after') :
    before = before' ∧ after = after' := by
  have hlength : before.length = before'.length :=
    Nat.le_antisymm (h.first _ _ h'.eq_append) (h'.first _ _ h.eq_append)
  have heq : before ++ (mark ++ after) = before' ++ (mark ++ after') := by
    rw [← List.append_assoc, ← List.append_assoc, ← h.eq_append, ← h'.eq_append]
  obtain ⟨hbefore, hrest⟩ := List.append_inj heq hlength
  exact ⟨hbefore, List.append_cancel_left hrest⟩

theorem cutAt_of_splitOnce {mark s before after : List Char}
    (h : splitOnce mark s = some (before, after)) : CutAt mark s before after := by
  refine ⟨eq_append_of_splitOnce h, ?_⟩
  induction s generalizing before with
  | nil =>
    intro front back heq
    have hnil := eq_append_of_splitOnce h
    simp_all
  | cons c s ih =>
    intro front back heq
    rw [splitOnce] at h
    split at h
    · cases h
      exact Nat.zero_le _
    · next hstart =>
      obtain ⟨⟨before, after⟩, hrest, hparts⟩ := Option.map_eq_some_iff.1 h
      cases hparts
      cases front with
      | nil => exact absurd (List.isPrefixOf_iff_prefix.2 ⟨back, heq.symm⟩) hstart
      | cons d front =>
        have htails : s = front ++ mark ++ back := (List.cons.inj heq).2
        exact Nat.succ_le_succ (ih hrest front back htails)

theorem splitOnce_eq_some_iff {mark s before after : List Char} :
    splitOnce mark s = some (before, after) ↔ CutAt mark s before after := by
  refine ⟨cutAt_of_splitOnce, fun h => ?_⟩
  cases hs : splitOnce mark s with
  | none => exact absurd ⟨before, after, h.eq_append.symm⟩ (splitOnce_eq_none_iff.1 hs)
  | some parts =>
    obtain ⟨rfl, rfl⟩ := (cutAt_of_splitOnce hs).unique h
    rfl

/-- The first place of a mark is where its first character first stands. -/
theorem cutAt_of_not_mem {c : Char} {mark before : List Char} (h : c ∉ before)
    (after : List Char) : CutAt (c :: mark) (before ++ c :: mark ++ after) before after := by
  refine ⟨rfl, fun front back heq => ?_⟩
  rw [List.append_assoc, List.append_assoc, List.append_eq_append_iff] at heq
  rcases heq with ⟨inner, rfl, -⟩ | ⟨inner, rfl, hinner⟩
  · simp
  · cases inner with
    | nil => simp
    | cons d inner =>
      obtain ⟨rfl, -⟩ := List.cons.inj hinner
      simp at h

/-! ## Fields -/

/-- The fields of a text: of its pieces between the separators, what they hold besides the blanks
around it, if they hold anything. -/
def IsFields (sep : Char) (s : List Char) (fields : List (List Char)) : Prop :=
  ∃ pieces trimmed, [sep].intercalate pieces = s ∧ pieces ≠ [] ∧ (∀ piece ∈ pieces, sep ∉ piece) ∧
    List.Forall₂ IsTrimOf pieces trimmed ∧ fields = trimmed.filter (!·.isEmpty)

theorem not_mem_of_mem_split {sep : Char} {s piece : List Char}
    (h : piece ∈ split (· == sep) s) : sep ∉ piece := fun hsep => by
  simpa using not_of_mem_split h hsep

theorem split_intercalate {sep : Char} {pieces : List (List Char)} (hne : pieces ≠ [])
    (h : ∀ piece ∈ pieces, sep ∉ piece) :
    split (· == sep) ([sep].intercalate pieces) = pieces := by
  induction pieces with
  | nil => exact absurd rfl hne
  | cons piece pieces ih =>
    obtain ⟨hsep, hrest⟩ := List.forall_mem_cons.1 h
    cases pieces with
    | nil => rw [List.intercalate_singleton, split_of_not_mem hsep]
    | cons piece' pieces =>
      rw [List.intercalate_cons_cons, List.append_assoc, List.singleton_append,
        split_append_cons (p := (· == sep)) (beq_self_eq_true sep), split_of_not_mem hsep,
        ih (by simp) hrest, List.singleton_append]

theorem isFields_iff {sep : Char} {s : List Char} {fields : List (List Char)} :
    IsFields sep s fields ↔
      fields = ((split (· == sep) s).map trim).filter (!·.isEmpty) := by
  have htrimmed : ∀ pieces trimmed : List (List Char),
      List.Forall₂ IsTrimOf pieces trimmed ↔ trimmed = pieces.map trim := by
    intro pieces trimmed
    rw [eq_comm (a := trimmed), ← List.forall₂_eq_eq_eq, List.forall₂_map_left_iff]
    simp only [trim_eq_iff]
  constructor
  · rintro ⟨pieces, trimmed, rfl, hne, hsep, htrim, rfl⟩
    rw [split_intercalate hne hsep, (htrimmed pieces trimmed).1 htrim]
  · rintro rfl
    exact ⟨_, _, intercalate_split s, split_ne_nil _ s, fun _ => not_mem_of_mem_split,
      (htrimmed _ _).2 rfl, rfl⟩

/-- Blanks behind a text change none of its fields. -/
theorem map_trim_split_append {sep : Char} (hsep : isBlank sep = false) (s : List Char)
    {trail : List Char} (htrail : ∀ c ∈ trail, isBlank c = true) :
    (split (· == sep) (s ++ trail)).map trim = (split (· == sep) s).map trim := by
  have hnot : sep ∉ trail := fun hmem => by simp [htrail sep hmem] at hsep
  obtain ⟨front, last, hs, hst⟩ := split_append_of_not_mem s hnot
  rw [hs, hst, List.map_append, List.map_append, List.map_singleton, List.map_singleton]
  rw [← List.nil_append last, trim_padded (by simp) htrail, List.nil_append]

theorem mem_intercalate {sep c : Char} {pieces : List (List Char)} (hc : c ≠ sep)
    (h : ∀ piece ∈ pieces, sep ∉ piece) :
    c ∈ [sep].intercalate pieces ↔ ∃ piece ∈ pieces, c ∈ piece := by
  by_cases hne : pieces = []
  · simp [hne]
  · rw [← List.mem_flatten, ← split_intercalate hne h, flatten_split, split_intercalate hne h]
    simp [hc]

theorem isFields_intercalate {sep : Char} {fields : List (List Char)}
    (hne : ∀ field ∈ fields, field ≠ []) (htrimmed : ∀ field ∈ fields, IsTrimmed field)
    (hsep : ∀ field ∈ fields, sep ∉ field) : IsFields sep ([sep].intercalate fields) fields := by
  rw [isFields_iff]
  by_cases hfields : fields = []
  · simp [hfields, trim, trimStart, trimEnd]
  · have htrim : fields.map trim = fields :=
      (List.map_congr_left fun field hfield => (htrimmed field hfield).trim_eq).trans (List.map_id _)
    rw [split_intercalate hfields hsep, htrim, eq_comm, List.filter_eq_self]
    simpa using hne

end AdFilter.Text
