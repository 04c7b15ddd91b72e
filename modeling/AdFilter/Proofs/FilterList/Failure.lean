import AdFilter.Proofs.FilterList.Append
import Mathlib.Data.List.Induction

/-!
# Sources that fail

A source may fail behind any byte. The index then holds what the complete lines give: the bytes up to the
last line feed (`IsComplete`). What came behind them is still held back as the line under way
(`Reading.toLoading_foldl_byte`), and is dropped with the source.
-/

namespace AdFilter.FilterList

/-- The complete lines of some bytes: the longest beginning that ends with a line feed, or nothing if no
beginning does. -/
structure IsComplete (bytes complete : List UInt8) : Prop where
  begins : complete <+: bytes
  ends : complete = [] ∨ complete.getLast? = some 10
  longest : ∀ other, other <+: bytes → other.getLast? = some 10 → other.length ≤ complete.length

/-- What is complete ends with a line, and no line feed stands behind it. -/
theorem isComplete_iff {bytes complete : List UInt8} :
    IsComplete bytes complete ↔ (complete = [] ∨ complete.getLast? = some 10) ∧
      ∃ unfinished, bytes = complete ++ unfinished ∧ 10 ∉ unfinished := by
  constructor
  · rintro ⟨⟨unfinished, rfl⟩, hends, hlongest⟩
    refine ⟨hends, unfinished, rfl, fun hmem => ?_⟩
    obtain ⟨front, back, rfl⟩ := List.append_of_mem hmem
    have hlonger := hlongest (complete ++ front ++ [10]) ⟨back, by simp⟩ List.getLast?_concat
    rw [List.length_append, List.length_append, List.length_singleton] at hlonger
    omega
  · rintro ⟨hends, unfinished, rfl, hmem⟩
    refine ⟨List.prefix_append _ _, hends, fun other hother hlast => ?_⟩
    rcases List.prefix_or_prefix_of_prefix hother (List.prefix_append complete unfinished) with
      hshort | ⟨more, rfl⟩
    · exact hshort.length_le
    · have hmore : more <+: unfinished := (List.prefix_append_right_inj complete).1 hother
      cases more with
      | nil => simp
      | cons b more =>
        rw [List.getLast?_append_of_ne_nil _ (by simp)] at hlast
        exact absurd (hmore.subset (List.mem_of_getLast? hlast)) hmem

theorem exists_isComplete (bytes : List UInt8) : ∃ complete, IsComplete bytes complete := by
  induction bytes using List.reverseRecOn with
  | nil => exact ⟨[], isComplete_iff.2 ⟨.inl rfl, [], rfl, List.not_mem_nil⟩⟩
  | append_singleton bytes b ih =>
    by_cases hb : b = 10
    · subst hb
      exact ⟨bytes ++ [10], isComplete_iff.2
        ⟨.inr List.getLast?_concat, [], by simp, List.not_mem_nil⟩⟩
    · obtain ⟨complete, hcomplete⟩ := ih
      obtain ⟨hends, unfinished, rfl, hmem⟩ := isComplete_iff.1 hcomplete
      exact ⟨complete, isComplete_iff.2
        ⟨hends, unfinished ++ [b], by simp, by simp [hmem, Ne.symm hb]⟩⟩

namespace Reading

theorem toLoading_foldl_byte {bytes : List UInt8} (h : 10 ∉ bytes) (r : Reading) :
    (bytes.foldl byte r).toLoading = r.toLoading := by
  induction bytes generalizing r with
  | nil => rfl
  | cons b bytes ih =>
    rw [List.mem_cons, not_or] at h
    rw [List.foldl_cons, ih h.2, byte_of_ne (Ne.symm h.1)]

/-- At the end of a line nothing is held back. -/
theorem foldl_byte_of_ends {bytes : List UInt8} (h : bytes = [] ∨ bytes.getLast? = some 10)
    (l : Loading) : bytes.foldl byte { toLoading := l } =
      { toLoading := (bytes.foldl byte { toLoading := l }).finish } := by
  have hend : endLine bytes = bytes := by
    unfold endLine
    rw [if_pos (by simpa using h)]
  have hfold := foldl_byte_endLine l bytes
  rwa [hend] at hfold

end Reading

/-- A source that fails gives its error, and leaves the index as its complete lines do when they are all
there is, however the bytes are delivered. -/
theorem loadSource_failing (index : RuleIndex) (chunks : List (List UInt8)) (failure : ReadError) :
    ∃ complete, IsComplete chunks.flatten complete ∧
      let loaded := loadSource index { chunks, failure := some failure }
      loaded.1 = .error failure ∧
      (∀ delivered : List (List UInt8), delivered.flatten = complete →
        ∃ stats, loadSource index { chunks := delivered } = (.ok stats, loaded.2)) ∧
      (complete = [] → loaded.2 = index) := by
  obtain ⟨complete, hcomplete⟩ := exists_isComplete chunks.flatten
  obtain ⟨hends, unfinished, hbytes, hmem⟩ := isComplete_iff.1 hcomplete
  have hloaded : (loadSource index { chunks, failure := some failure }).2 =
      (complete.foldl Reading.byte { index }).finish.index := by
    have hindex : (chunks.flatten.foldl Reading.byte { index }).index =
        (complete.foldl Reading.byte { index }).finish.index := by
      rw [hbytes, List.foldl_append, Reading.toLoading_foldl_byte hmem,
        Reading.foldl_byte_of_ends hends { index }]
      rfl
    rw [← hindex, List.foldl_flatten]
    rfl
  refine ⟨complete, hcomplete, rfl, fun delivered hdelivered => ?_, fun hnone => ?_⟩
  · rw [hloaded, loadSource_chunks, hdelivered]
    exact ⟨_, rfl⟩
  · rw [hloaded, hnone]
    rfl

/-- The error comes in the middle of a character, and the line feed in front of it in a chunk of its
own. -/
example : (loadSource {}
    { chunks := [[0x61], [0x0A], [0x62, 0xC3]], failure := some .isDirectory }).2.ruleCount = 1 := by
  decide +kernel

end AdFilter.FilterList
