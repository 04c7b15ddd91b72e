import AdFilter.Text.Utf8

/-!
# Occurrences in UTF-8

A text occurs in another exactly when its bytes occur in the bytes of the other (`utf8_infix_iff`).
The byte that starts a character stands at no other place of a character, so bytes of a text can
only be found where one of its characters starts. A part of a text stands between two of its positions,
which are told by the bytes in front of them (`exists_extract_eq`).
-/

namespace AdFilter.Text

@[simp]
theorem utf8_nil : utf8 [] = [] :=
  rfl

theorem utf8_toList (s : String) : utf8 s.toList = s.toByteArray.data.toList := by
  rw [← String.utf8Encode_toList (b := s), List.utf8Encode, List.data_toByteArray, utf8]

theorem utf8_cons (c : Char) (s : List Char) : utf8 (c :: s) = String.utf8EncodeChar c ++ utf8 s :=
  List.flatMap_cons

@[simp]
theorem utf8_append (s t : List Char) : utf8 (s ++ t) = utf8 s ++ utf8 t :=
  List.flatMap_append

@[simp]
theorem utf8_eq_nil_iff {s : List Char} : utf8 s = [] ↔ s = [] := by
  cases s with
  | nil => simp
  | cons c s => simp [utf8_cons]

theorem utf8EncodeChar_append_inj {c d : Char} {x y : List UInt8}
    (h : String.utf8EncodeChar c ++ x = String.utf8EncodeChar d ++ y) : c = d ∧ x = y := by
  have hc : c = d := by
    have hb := congrArg List.toByteArray h
    rw [List.toByteArray_append, List.toByteArray_append] at hb
    have hdecode := congrArg (ByteArray.utf8DecodeChar? · 0) hb
    simpa [ByteArray.utf8DecodeChar?_utf8EncodeChar_append] using hdecode
  subst hc
  exact ⟨rfl, List.append_cancel_left h⟩

theorem utf8_prefix_iff {s t : List Char} : utf8 s <+: utf8 t ↔ s <+: t := by
  induction s generalizing t with
  | nil => simp
  | cons c s ih =>
    cases t with
    | nil => simp [List.prefix_nil]
    | cons d t =>
      rw [utf8_cons, utf8_cons, List.cons_prefix_cons, ← ih]
      constructor
      · rintro ⟨rest, h⟩
        rw [List.append_assoc] at h
        obtain ⟨hcd, hst⟩ := utf8EncodeChar_append_inj h
        exact ⟨hcd, rest, hst⟩
      · rintro ⟨rfl, h⟩
        exact List.prefix_append_right_inj _ |>.2 h

/-! ## Places where a character starts -/

theorem isUTF8FirstByte_of_utf8_append {s : List Char} {x : UInt8} {b rest : List UInt8}
    (hs : s ≠ []) (h : utf8 s ++ b = x :: rest) : x.IsUTF8FirstByte := by
  obtain ⟨d, s, rfl⟩ := List.exists_cons_of_ne_nil hs
  have hx : (String.utf8EncodeChar d)[0]? = some x := by
    have h0 := congrArg (·[0]?) h
    simp only [utf8_cons, List.append_assoc, List.getElem?_cons_zero] at h0
    rwa [List.getElem?_append_left (by simp [d.utf8Size_pos])] at h0
  obtain ⟨hlt, rfl⟩ := List.getElem?_eq_some_iff.1 hx
  exact UInt8.isUTF8FirstByte_getElem_utf8EncodeChar.2 rfl

theorem not_isUTF8FirstByte_of_utf8EncodeChar_eq {c : Char} {x : UInt8} {a rest : List UInt8}
    (ha : a ≠ []) (h : String.utf8EncodeChar c = a ++ x :: rest) : ¬x.IsUTF8FirstByte := by
  have hx : (String.utf8EncodeChar c)[a.length]? = some x := by simp [h]
  obtain ⟨hlt, rfl⟩ := List.getElem?_eq_some_iff.1 hx
  rw [UInt8.isUTF8FirstByte_getElem_utf8EncodeChar]
  exact fun h0 => ha (List.length_eq_zero_iff.1 h0)

theorem infix_of_utf8_infix {s t : List Char} (hs : s ≠ []) (h : utf8 s <:+: utf8 t) :
    s <:+: t := by
  induction t with
  | nil => exact absurd (utf8_eq_nil_iff.1 (List.infix_nil.1 h)) hs
  | cons c t ih =>
    obtain ⟨a, b, h⟩ := h
    rw [utf8_cons, List.append_assoc, List.append_eq_append_iff] at h
    -- the occurrence starts in the bytes of `c` or behind them
    rcases h with ⟨a', hc, ht⟩ | ⟨a', -, ht⟩
    · by_cases ha : a = []
      · subst ha
        have hp : utf8 s <+: utf8 (c :: t) := ⟨b, by rw [utf8_cons, hc, ht, List.nil_append]⟩
        exact (utf8_prefix_iff.1 hp).isInfix
      · cases a' with
        | nil => exact List.infix_cons (ih ⟨[], b, by simpa using ht⟩)
        | cons x rest =>
          have hbytes : utf8 s ++ b = x :: (rest ++ utf8 t) := by simpa using ht
          have hfirst : x.IsUTF8FirstByte := isUTF8FirstByte_of_utf8_append hs hbytes
          exact absurd hfirst (not_isUTF8FirstByte_of_utf8EncodeChar_eq ha hc)
    · exact List.infix_cons (ih ⟨a', b, by simpa using ht.symm⟩)

theorem utf8_infix_iff {s t : List Char} : utf8 s <:+: utf8 t ↔ s <:+: t := by
  constructor
  · intro h
    by_cases hs : s = []
    · exact hs ▸ List.nil_infix
    · exact infix_of_utf8_infix hs h
  · rintro ⟨a, b, rfl⟩
    exact ⟨utf8 a, utf8 b, by simp⟩

/-! ## Positions -/

theorem length_utf8_toList (s : String) : (utf8 s.toList).length = s.utf8ByteSize := by
  rw [utf8_toList]
  rfl

theorem length_utf8 (s : List Char) : (utf8 s).length = (String.ofList s).utf8ByteSize := by
  rw [← length_utf8_toList, String.toList_ofList]

/-- A part of a text lies between two of its positions. -/
theorem exists_extract_eq {s : String} {before word after : List Char}
    (h : s.toList = before ++ word ++ after) : ∃ start stop : s.Pos,
      start.offset.byteIdx = (utf8 before).length ∧
        stop.offset.byteIdx = (utf8 (before ++ word)).length ∧
          s.extract start stop = String.ofList word := by
  have hs : s = String.ofList before ++ String.ofList word ++ String.ofList after := by
    rw [← String.ofList_append, ← String.ofList_append, ← h, String.ofList_toList]
  have hstart : (String.ofList before).rawEndPos.IsValid s :=
    String.Pos.Raw.isValid_iff_exists_append.2 ⟨_, _, by rw [hs, String.append_assoc], rfl⟩
  have hstop : (String.ofList before ++ String.ofList word).rawEndPos.IsValid s :=
    String.Pos.Raw.isValid_iff_exists_append.2 ⟨_, _, hs, rfl⟩
  refine ⟨⟨_, hstart⟩, ⟨_, hstop⟩, (length_utf8 before).symm, ?_, ?_⟩
  · rw [length_utf8, String.ofList_append]
    rfl
  · rw [← String.toByteArray_inj, String.toByteArray_extract]
    have hmiddle : ∀ {a b c : ByteArray}, (a ++ b ++ c).extract a.size (a ++ b).size = b := by
      intro a b c
      rw [ByteArray.append_assoc, ByteArray.size_append]
      exact (ByteArray.extract_append_size_add (i := 0)).trans (ByteArray.extract_append_eq_left rfl)
    show s.toByteArray.extract (String.ofList before).utf8ByteSize
      (String.ofList before ++ String.ofList word).utf8ByteSize = _
    rw [hs, String.toByteArray_append, ← String.size_toByteArray, ← String.size_toByteArray,
      String.toByteArray_append]
    exact hmiddle

end AdFilter.Text
