import AdFilter.Proofs.FilterList.Counts
import AdFilter.Proofs.FilterList.Source

/-!
# Lists one behind the other

To load a text behind one that ends with a line is to load the two one after the other
(`load_append`). Bytes need not end with a line: at their end the line under way is loaded, just as by
the line feed that `endLine` puts there (`Reading.foldl_byte_endLine`).
-/

namespace AdFilter.FilterList

theorem load_append (index : RuleIndex) {a : String} (h : a = "" ∨ a.toList.getLast? = some '\n')
    (b : String) :
    load index (a ++ b) =
      { index := (load (load index a).index b).index
        stats := (load index a).stats.merge (load (load index a).index b).stats } := by
  have hlines : Text.lines (a ++ b).toList = Text.lines a.toList ++ Text.lines b.toList := by
    rw [String.toList_append]
    exact Text.lines_append (h.imp_left fun h => by rw [h, String.toList_empty]) b.toList
  unfold load
  rw [hlines, Loading.lines_append, Loading.lines_eq (Loading.lines _ _)]

/-- Bytes with a line feed behind a last line that lacks one. -/
def endLine (bytes : List UInt8) : List UInt8 :=
  if bytes.isEmpty || bytes.getLast? == some 10 then bytes else bytes ++ [10]

namespace Reading

theorem byte_newline (r : Reading) :
    r.byte 10 = { toLoading := r.toLoading.line (Text.decodeLossy r.unfinished.reverse) } := by
  rw [← toLoading_byte_newline, ← unfinished_byte_newline r]

theorem finish_of_unfinished {r : Reading} (h : r.unfinished ≠ []) :
    r.finish = (r.byte 10).toLoading := by
  rw [toLoading_byte_newline, finish, if_neg (by simpa using h)]

/-- A line feed at the end does nothing but to end the line under way. -/
theorem foldl_byte_endLine (l : Loading) (bytes : List UInt8) :
    (endLine bytes).foldl byte { toLoading := l } =
      { toLoading := (bytes.foldl byte { toLoading := l }).finish } := by
  rcases List.eq_nil_or_concat bytes with rfl | ⟨front, last, rfl⟩
  · rfl
  · rw [List.concat_eq_append, List.foldl_concat]
    generalize hfront : front.foldl byte { toLoading := l } = r
    by_cases hlast : last = 10
    · have hend : endLine (front ++ [last]) = front ++ [last] := by simp [endLine, hlast]
      rw [hend, List.foldl_concat, hfront, hlast, byte_newline]
      rfl
    · have hend : endLine (front ++ [last]) = front ++ [last] ++ [10] := by simp [endLine, hlast]
      rw [hend, List.foldl_concat, List.foldl_concat, hfront,
        finish_of_unfinished (by simp [byte_of_ne hlast]), byte_newline]

theorem finish_foldl_byte_eq (l : Loading) (bytes : List UInt8) :
    (bytes.foldl byte { toLoading := l }).finish =
      { index := (bytes.foldl byte { index := l.index }).finish.index
        stats := l.stats.merge (bytes.foldl byte { index := l.index }).finish.stats } := by
  rw [finish_foldl_byte _ (by simp), finish_foldl_byte _ (by simp), Loading.lines_eq]

end Reading

theorem loadSource_chunks (index : RuleIndex) (chunks : List (List UInt8)) :
    loadSource index { chunks } =
      (.ok (chunks.flatten.foldl Reading.byte { index }).finish.stats,
        (chunks.flatten.foldl Reading.byte { index }).finish.index) := by
  rw [List.foldl_flatten]
  rfl

end AdFilter.FilterList
