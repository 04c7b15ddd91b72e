import AdFilter.Proofs.KeywordIndex
import Mathlib.Data.List.Induction

/-!
# Filing more rules

An index grows at its ends only (`Grows`): a bucket keeps its place and its rules, and has the new
rules of its keyword behind them. New keywords come behind the old ones. Since candidates are all
rules in another order (`perm_candidateOrder`), no rule is lost or filed twice.
-/

namespace AdFilter

theorem keywordsOf_append (rules added : List Rule) :
    keywordsOf (rules ++ added) =
      keywordsOf rules ++ (keywordsOf added).filter (· ∉ keywordsOf rules) := by
  induction added using List.reverseRecOn with
  | nil => simp [keywordsOf]
  | append_singleton added rule ih =>
    rw [← List.append_assoc, keywordsOf_concat, keywordsOf_concat, ih]
    by_cases hempty : rule.keyword = ""
    · rw [if_pos (.inl hempty), if_pos (.inl hempty)]
    · by_cases hrules : rule.keyword ∈ keywordsOf rules <;>
        by_cases hadded : rule.keyword ∈ keywordsOf added <;>
          simp [hempty, hrules, hadded]

/-- Sorting rules into buckets of different keywords takes each rule of these keywords once. -/
theorem flatMap_filter_keyword_perm {keywords : List String} (h : keywords.Nodup)
    (rules : List Rule) :
    (keywords.flatMap fun keyword => rules.filter (·.keyword = keyword)).Perm
      (rules.filter (·.keyword ∈ keywords)) := by
  induction keywords with
  | nil => simp
  | cons keyword keywords ih =>
    obtain ⟨hnew, hnodup⟩ := List.nodup_cons.1 h
    have hfirst : rules.filter (·.keyword = keyword) =
        (rules.filter (·.keyword ∈ keyword :: keywords)).filter (·.keyword = keyword) := by
      rw [List.filter_filter]
      refine List.filter_congr fun r _ => ?_
      by_cases hr : r.keyword = keyword <;> simp [hr]
    have hothers : rules.filter (·.keyword ∈ keywords) =
        (rules.filter (·.keyword ∈ keyword :: keywords)).filter
          (fun r => !decide (r.keyword = keyword)) := by
      rw [List.filter_filter]
      refine List.filter_congr fun r _ => ?_
      by_cases hr : r.keyword = keyword
      · simp [hr, hnew]
      · simp [hr]
    rw [List.flatMap_cons]
    -- the rules of the first keyword and those of the others make up a partition
    refine ((ih hnodup).append_left _).trans ?_
    rw [hfirst, hothers]
    exact List.filter_append_perm _ _

theorem perm_candidateOrder (rules : List Rule) : (candidateOrder rules).Perm rules := by
  have hkeyed : rules.filter (·.keyword ∈ keywordsOf rules) =
      rules.filter (fun r => !decide (r.keyword = "")) := by
    refine List.filter_congr fun r hr => ?_
    have hmem : r.keyword ∈ keywordsOf rules ↔ ¬r.keyword = "" := by
      rw [mem_keywordsOf]
      exact and_iff_left ⟨r, hr, rfl⟩
    simp only [hmem, decide_not]
  have hparts := (flatMap_filter_keyword_perm (nodup_keywordsOf rules) rules).append_right
    (rules.filter (·.keyword = ""))
  rw [hkeyed] at hparts
  exact hparts.trans (List.perm_append_comm.trans (List.filter_append_perm _ _))

/-- The bucket with those of some rules behind it that have its keyword. -/
def Bucket.extend (bucket : Bucket) (added : List Rule) : Bucket :=
  { bucket with
    rules := bucket.rules ++ (added.filter (·.keyword = bucket.keyword.literal)).toArray }

namespace KeywordIndex

/-- The index has some rules more than before, all of them behind what it had. -/
structure Grows (before after : KeywordIndex) (added : List Rule) : Prop where
  buckets : after.buckets = before.buckets.map (·.extend added) ++
    ((keywordsOf added).filter (· ∉ before.buckets.map (·.keyword.literal))).map (bucketOf added)
  unkeyed : after.unkeyed.toList = before.unkeyed.toList ++ added.filter (·.keyword = "")
  size : after.size = before.size + added.length

variable {before after : KeywordIndex} {rules added : List Rule}

theorem Grows.size_unkeyed (h : Grows before after added) :
    after.unkeyed.size = before.unkeyed.size + added.countP (·.keyword = "") := by
  have hlength := congrArg List.length h.unkeyed
  rwa [List.length_append, ← List.countP_eq_length_filter] at hlength

theorem bucketOf_append (rules added : List Rule) (keyword : String) :
    bucketOf (rules ++ added) keyword = (bucketOf rules keyword).extend added := by
  have hliteral : (Fingerprint.ofString keyword).literal = keyword := rfl
  simp [bucketOf, Bucket.extend, hliteral]

theorem bucketOf_append_of_not_mem {keyword : String} (h0 : keyword ≠ "")
    (h : keyword ∉ keywordsOf rules) :
    bucketOf (rules ++ added) keyword = bucketOf added keyword := by
  rw [bucketOf_append, bucketOf_of_not_mem h0 h]
  have hliteral : (Fingerprint.ofString keyword).literal = keyword := rfl
  simp [bucketOf, Bucket.extend, hliteral]

theorem Files.grows (h : Files before rules) (h' : Files after (rules ++ added)) :
    Grows before after added := by
  have hkeywords : before.buckets.map (·.keyword.literal) = keywordsOf rules := by
    rw [h.buckets, List.map_map]
    exact List.map_id _
  refine ⟨?_, ?_, ?_⟩
  · rw [hkeywords, h.buckets, h'.buckets, keywordsOf_append, List.map_append, List.map_map]
    congr 1
    · exact List.map_congr_left fun keyword _ => bucketOf_append rules added keyword
    · refine List.map_congr_left fun keyword hmem => ?_
      obtain ⟨hadded, hnew⟩ := List.mem_filter.1 hmem
      exact bucketOf_append_of_not_mem (mem_keywordsOf.1 hadded).1 (of_decide_eq_true hnew)
  · rw [h'.unkeyed, h.unkeyed, List.filter_append]
  · rw [h'.size, h.size, List.length_append]

end KeywordIndex

end AdFilter
