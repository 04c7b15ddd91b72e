import AdFilter.Proofs.FilterList
import AdFilter.Proofs.Text.Decode
import AdFilter.Proofs.Text.Lines

/-!
# Loading bytes and loading text

A list is loaded alike as a text, as bytes that arrive in any chunks, and by its items. While bytes
are read, the lines that were complete are loaded and no line feed is held back; so it makes no
difference whether bytes are cut into lines before they are decoded, or after
(`Reading.finish_foldl_byte`).
-/

namespace AdFilter.FilterList

theorem Loading.line_congr (l : Loading) {s t : List Char} (h : Text.trim s = Text.trim t) :
    l.line s = l.line t := by
  unfold line FilterLine.read
  rw [h]

theorem Loading.lines_cons (l : Loading) (text : List Char) (texts : List (List Char)) :
    l.lines (text :: texts) = (l.line text).lines texts :=
  rfl

namespace Reading

theorem unfinished_byte_newline (r : Reading) : (r.byte 10).unfinished = [] := by
  rw [byte, if_pos rfl]

theorem toLoading_byte_newline (r : Reading) :
    (r.byte 10).toLoading = r.toLoading.line (Text.decodeLossy r.unfinished.reverse) := by
  rw [byte, if_pos rfl, List.reverse_cons]
  apply Loading.line_congr
  rw [Text.decodeLossy_append_newline]
  exact Text.trim_append_blank (by decide) _

theorem byte_of_ne {b : UInt8} (h : b ≠ 10) (r : Reading) :
    r.byte b = { r with unfinished := b :: r.unfinished } :=
  if_neg h

theorem finish_eq_lines (r : Reading) (h : 10 ∉ r.unfinished) :
    r.finish = r.toLoading.lines (Text.lines (Text.decodeLossy r.unfinished.reverse)) := by
  have hline : '\n' ∉ Text.decodeLossy r.unfinished.reverse :=
    Text.newline_not_mem_decodeLossy (by simpa using h)
  rw [Text.lines_of_newline_not_mem hline, finish]
  by_cases hempty : r.unfinished = []
  · simp [hempty, Text.decodeLossy_eq_nil_iff, Loading.lines]
  · simp [hempty, Text.decodeLossy_eq_nil_iff, Loading.lines]

/-- What is loaded in the end: the lines of the text that the bytes give. -/
theorem finish_foldl_byte (r : Reading) (h : 10 ∉ r.unfinished) (bs : List UInt8) :
    (bs.foldl byte r).finish =
      r.toLoading.lines (Text.lines (Text.decodeLossy (r.unfinished.reverse ++ bs))) := by
  induction bs generalizing r with
  | nil =>
    rw [List.foldl_nil, List.append_nil]
    exact r.finish_eq_lines h
  | cons b bs ih =>
    rw [List.foldl_cons]
    by_cases hb : b = 10
    · subst hb
      have hline : '\n' ∉ Text.decodeLossy r.unfinished.reverse :=
        Text.newline_not_mem_decodeLossy (by simpa using h)
      have hrest := ih (r.byte 10) (by simp [unfinished_byte_newline])
      rw [unfinished_byte_newline, toLoading_byte_newline, List.reverse_nil, List.nil_append] at hrest
      rw [hrest, Text.decodeLossy_append_newline, Text.lines_append_newline hline,
        Loading.lines_cons, Loading.line_congr _ (Text.trim_dropReturn _)]
    · have hrest := ih (r.byte b) (by simp [byte_of_ne hb, h, Ne.symm hb])
      rw [byte_of_ne hb, List.reverse_cons, List.append_assoc] at hrest
      rw [byte_of_ne hb]
      exact hrest

end Reading

/-- Bytes that arrive in any chunks are loaded like the text that they give, and a text is loaded like
the items of its lines. -/
theorem loadSource_eq_load (index : RuleIndex) :
    (∀ chunks : List (List UInt8),
      let loaded := load index (String.ofList (Text.decodeLossy chunks.flatten))
      loadSource index { chunks } = (.ok loaded.stats, loaded.index)) ∧
    ∀ text : String, index.addAll (FilterLine.readAll text) = (load index text).index := by
  constructor
  · intro chunks loaded
    have hloaded : (chunks.flatten.foldl Reading.byte { index }).finish = loaded := by
      rw [Reading.finish_foldl_byte { index } (by simp)]
      unfold loaded load
      rw [String.toList_ofList]
      rfl
    unfold loadSource
    rw [← hloaded, List.foldl_flatten]
  · intro text
    rw [load, Loading.lines_index]
    rfl

/-- A sequence that breaks off before a line feed, and a carriage return before another. -/
example : (loadSource {} { chunks := [[0x61, 0xC3], [0x0A, 0x62, 0x0D, 0x0A, 0x63]] }).1.toOption =
    some { lines := 3, rules := 3, blankKeywords := 3 } := by
  decide +kernel

end AdFilter.FilterList
