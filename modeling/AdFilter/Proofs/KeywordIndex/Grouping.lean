import AdFilter.Proofs.KeywordIndex.Growth
import Mathlib.Data.List.Infix

/-!
# Buckets as groups

Filing rules groups them by keyword, and loses nothing: what an index consists of can be said from
the rules alone (`GroupsByKeyword`). A fingerprint holds its text, so keywords that agree in the
hash by accident still have a bucket each.
-/

namespace AdFilter

def firstPlace (rules : List Rule) (keyword : String) : Nat :=
  rules.findIdx (·.keyword = keyword)

theorem firstPlace_lt {rules : List Rule} {keyword : String} (h : keyword ∈ keywordsOf rules) :
    firstPlace rules keyword < rules.length := by
  obtain ⟨-, r, hr, hkeyword⟩ := mem_keywordsOf.1 h
  exact List.findIdx_lt_length_of_exists ⟨r, hr, decide_eq_true hkeyword⟩

theorem firstPlace_append {rules : List Rule} {keyword : String} (h : keyword ∈ keywordsOf rules)
    (added : List Rule) : firstPlace (rules ++ added) keyword = firstPlace rules keyword := by
  rw [firstPlace, List.findIdx_append]
  exact if_pos (firstPlace_lt h)

theorem firstPlace_concat_self {rules : List Rule} {rule : Rule} (h0 : rule.keyword ≠ "")
    (h : rule.keyword ∉ keywordsOf rules) :
    firstPlace (rules ++ [rule]) rule.keyword = rules.length := by
  have hnone : rules.findIdx (·.keyword = rule.keyword) = rules.length := by
    refine List.findIdx_eq_length.2 fun r hr => decide_eq_false fun hkeyword => ?_
    exact h (mem_keywordsOf.2 ⟨h0, r, hr, hkeyword⟩)
  rw [firstPlace, List.findIdx_append, hnone, if_neg (Nat.lt_irrefl _)]
  simp

theorem pairwise_firstPlace_keywordsOf (rules : List Rule) :
    (keywordsOf rules).Pairwise fun a b => firstPlace rules a < firstPlace rules b := by
  induction rules using List.reverseRecOn with
  | nil => exact .nil
  | append_singleton rules rule ih =>
    have hold : (keywordsOf rules).Pairwise fun a b =>
        firstPlace (rules ++ [rule]) a < firstPlace (rules ++ [rule]) b := by
      refine ih.imp_of_mem fun ha hb hlt => ?_
      rwa [firstPlace_append ha, firstPlace_append hb]
    rw [keywordsOf_concat]
    split
    · exact hold
    · next h =>
      obtain ⟨h0, hnew⟩ := not_or.1 h
      refine List.pairwise_append.2 ⟨hold, List.pairwise_singleton _ _, fun a ha b hb => ?_⟩
      rw [List.mem_singleton.1 hb, firstPlace_append ha, firstPlace_concat_self h0 hnew]
      exact firstPlace_lt ha

/-- The bucket is that of a keyword, and holds the rules that have it, in their order. -/
structure Bucket.IsGroupOf (bucket : Bucket) (rules : List Rule) : Prop where
  keyword : bucket.keyword = Fingerprint.ofString bucket.keyword.literal
  keyword_ne_empty : bucket.keyword.literal ≠ ""
  rules_eq : bucket.rules.toList = rules.filter (·.keyword = bucket.keyword.literal)
  rules_ne_empty : bucket.rules ≠ #[]

namespace KeywordIndex

/-- The index holds the rules, each once, in one bucket for each keyword. -/
structure GroupsByKeyword (index : KeywordIndex) (rules : List Rule) : Prop where
  isGroup : ∀ bucket ∈ index.buckets, bucket.IsGroupOf rules
  /-- a keyword that came up before another one has its bucket before that of the other -/
  ordered : index.buckets.Pairwise fun a b =>
    firstPlace rules a.keyword.literal < firstPlace rules b.keyword.literal
  distinct : (index.buckets.map (·.keyword.literal)).Nodup
  complete : ∀ r ∈ rules, r.keyword ≠ "" → ∃ bucket ∈ index.buckets, r ∈ bucket.rules
  unkeyed : index.unkeyed.toList = rules.filter (·.keyword = "")
  size : index.size = rules.length
  candidates : ∀ request, (index.candidates request).Perm
    (rules.filter fun r => r.keyword = "" ∨ r.keyword.toList <:+: request.toList)

variable {index : KeywordIndex} {rules : List Rule}

theorem isGroupOf_bucketOf {keyword : String} (h : keyword ∈ keywordsOf rules) :
    (bucketOf rules keyword).IsGroupOf rules := by
  obtain ⟨h0, r, hr, hkeyword⟩ := mem_keywordsOf.1 h
  refine ⟨rfl, h0, rfl, fun hnil => ?_⟩
  have hmem : r ∈ (bucketOf rules keyword).rules.toList :=
    List.mem_filter.2 ⟨hr, decide_eq_true hkeyword⟩
  rw [hnil] at hmem
  exact List.not_mem_nil hmem

theorem Files.candidates_perm (h : Files index rules) (request : String) :
    (index.candidates request).Perm
      (rules.filter fun r => r.keyword = "" ∨ r.keyword.toList <:+: request.toList) := by
  have hoccurs : ∀ r : Rule,
      (Fingerprint.ofString r.keyword).occursIn (Text.utf8 request.toList) =
        decide (r.keyword = "" ∨ r.keyword.toList <:+: request.toList) := by
    intro r
    rw [Bool.eq_iff_iff, decide_eq_true_iff, Fingerprint.occursIn_ofString]
    refine ⟨.inr, fun hr => hr.elim (fun h0 => ?_) id⟩
    rw [h0]
    exact List.nil_infix
  rw [h.candidates]
  simp only [hoccurs]
  exact (perm_candidateOrder rules).filter _

theorem Files.groupsByKeyword (h : Files index rules) : GroupsByKeyword index rules where
  isGroup bucket hbucket := by
    rw [h.buckets] at hbucket
    obtain ⟨keyword, hkeyword, rfl⟩ := List.mem_map.1 hbucket
    exact isGroupOf_bucketOf hkeyword
  ordered := by
    rw [h.buckets]
    exact List.pairwise_map.2 (pairwise_firstPlace_keywordsOf rules)
  distinct := by
    rw [h.buckets, List.map_map]
    exact (List.map_id (keywordsOf rules)).symm ▸ nodup_keywordsOf rules
  complete r hr h0 := by
    refine ⟨bucketOf rules r.keyword, ?_, ?_⟩
    · rw [h.buckets]
      exact List.mem_map_of_mem (mem_keywordsOf.2 ⟨h0, r, hr, rfl⟩)
    · exact Array.mem_toList_iff.1 (List.mem_filter.2 ⟨hr, decide_eq_true rfl⟩)
  unkeyed := h.unkeyed
  size := h.size
  candidates := h.candidates_perm

/-- Rules that are filed one after the other are grouped by keyword, whatever their keywords are. -/
theorem groupsByKeyword_foldl_insert (rules : List Rule) :
    GroupsByKeyword (rules.foldl KeywordIndex.insert .empty) rules :=
  (files_foldl_insert rules).groupsByKeyword

/-- Two keywords with the same hash, and a bucket for each of them. -/
example :
    let rules := ["oplgmkc", "hlobhtd", "oplgmkc"].map fun keyword => ({
      text := keyword, pattern := .compile keyword false, keyword } : Rule)
    (Fingerprint.ofString "oplgmkc").hash = (Fingerprint.ofString "hlobhtd").hash ∧
      (rules.foldl KeywordIndex.insert .empty).buckets.map (·.rules.size) = [2, 1] := by
  intro rules
  refine ⟨by decide +kernel, ?_⟩
  rw [(files_foldl_insert rules).buckets]
  decide +kernel

end KeywordIndex

end AdFilter
