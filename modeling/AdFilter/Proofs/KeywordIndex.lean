import AdFilter.KeywordIndex
import AdFilter.Proofs.Fingerprint
import Mathlib.Data.List.Induction

/-!
# The order of candidates

`Files index rules`: the index holds the rules, filed one after the other into an empty one. It says
what stands in every part of the index, so the candidates for a request can be read off the list of
rules (`Files.candidates`): they stand in `candidateOrder`, without those whose keyword is not found.
-/

namespace AdFilter

/-- The keywords of some rules, in the order in which they first come up. -/
def keywordsOf (rules : List Rule) : List String :=
  ((rules.map (·.keyword)).filter (!·.isEmpty)).eraseDups

/-- Some rules in the order in which they are looked at: by keyword, those without one at the end. -/
def candidateOrder (rules : List Rule) : List Rule :=
  ((keywordsOf rules).flatMap fun keyword => rules.filter (·.keyword = keyword)) ++
    rules.filter (·.keyword = "")

theorem mem_keywordsOf {rules : List Rule} {keyword : String} :
    keyword ∈ keywordsOf rules ↔ keyword ≠ "" ∧ ∃ r ∈ rules, r.keyword = keyword := by
  simp only [keywordsOf, List.mem_eraseDups, List.mem_filter, List.mem_map, Bool.not_eq_true',
    String.isEmpty_eq_false_iff]
  exact and_comm

theorem eraseDups_concat (keywords : List String) (keyword : String) :
    (keywords ++ [keyword]).eraseDups =
      if keyword ∈ keywords then keywords.eraseDups else keywords.eraseDups ++ [keyword] := by
  rw [List.eraseDups_append, List.removeAll]
  split
  · next h => simp [h]
  · next h => simp [h, List.eraseDups_cons]

theorem keywordsOf_concat (rules : List Rule) (rule : Rule) :
    keywordsOf (rules ++ [rule]) =
      if rule.keyword = "" ∨ rule.keyword ∈ keywordsOf rules then keywordsOf rules
      else keywordsOf rules ++ [rule.keyword] := by
  by_cases he : rule.keyword = ""
  · simp [keywordsOf, he]
  · have happend : keywordsOf (rules ++ [rule]) =
        ((rules.map (·.keyword)).filter (!·.isEmpty) ++ [rule.keyword]).eraseDups := by
      simp [keywordsOf, he]
    rw [happend, eraseDups_concat]
    simp only [he, false_or, keywordsOf, List.mem_eraseDups]

theorem nodup_keywordsOf (rules : List Rule) : (keywordsOf rules).Nodup := by
  induction rules using List.reverseRecOn with
  | nil => simp [keywordsOf]
  | append_singleton rules rule ih =>
    rw [keywordsOf_concat]
    split
    · exact ih
    · next h =>
      have hnew : rule.keyword ∉ keywordsOf rules := (not_or.1 h).2
      refine List.nodup_append.2 ⟨ih, by simp, fun keyword hk added hadded heq => ?_⟩
      rw [heq, List.mem_singleton.1 hadded] at hk
      exact hnew hk

theorem mem_candidateOrder {rules : List Rule} {rule : Rule} :
    rule ∈ candidateOrder rules ↔ rule ∈ rules := by
  simp only [candidateOrder, List.mem_append, List.mem_flatMap, mem_keywordsOf, List.mem_filter,
    decide_eq_true_eq]
  constructor
  · rintro (⟨_, -, h, -⟩ | ⟨h, -⟩) <;> exact h
  · intro h
    by_cases he : rule.keyword = ""
    · exact .inr ⟨h, he⟩
    · exact .inl ⟨rule.keyword, ⟨he, rule, h, rfl⟩, h, rfl⟩

namespace KeywordIndex

def bucketOf (rules : List Rule) (keyword : String) : Bucket where
  keyword := Fingerprint.ofString keyword
  rules := (rules.filter (·.keyword = keyword)).toArray

/-- The index holds the rules, filed in their order. -/
structure Files (index : KeywordIndex) (rules : List Rule) : Prop where
  buckets : index.buckets = (keywordsOf rules).map (bucketOf rules)
  unkeyed : index.unkeyed.toList = rules.filter (·.keyword = "")
  size : index.size = rules.length

theorem Files.empty : Files .empty [] where
  buckets := rfl
  unkeyed := rfl
  size := rfl

theorem bucketOf_concat_of_ne {rules : List Rule} {rule : Rule} {keyword : String}
    (h : rule.keyword ≠ keyword) : bucketOf (rules ++ [rule]) keyword = bucketOf rules keyword := by
  simp [bucketOf, h]

theorem bucketOf_concat_self (rules : List Rule) (rule : Rule) :
    bucketOf (rules ++ [rule]) rule.keyword =
      { bucketOf rules rule.keyword with
        rules := (bucketOf rules rule.keyword).rules.push rule } := by
  simp [bucketOf]

theorem bucketOf_of_not_mem {rules : List Rule} {keyword : String} (h0 : keyword ≠ "")
    (h : keyword ∉ keywordsOf rules) :
    bucketOf rules keyword = { keyword := Fingerprint.ofString keyword } := by
  have hnil : rules.filter (·.keyword = keyword) = [] := by
    rw [List.filter_eq_nil_iff]
    intro r hr hk
    exact h (mem_keywordsOf.2 ⟨h0, r, hr, of_decide_eq_true hk⟩)
  simp [bucketOf, hnil]

variable {index : KeywordIndex} {rules : List Rule}

theorem map_bucketOf_concat {rule : Rule} {keywords : List String} (h : rule.keyword ∉ keywords) :
    keywords.map (bucketOf (rules ++ [rule])) = keywords.map (bucketOf rules) := by
  refine List.map_congr_left fun keyword hkeyword => bucketOf_concat_of_ne ?_
  rintro rfl
  exact h hkeyword

theorem Files.slots_eq_some_iff (h : Files index rules) {keyword : String} {slot : Nat} :
    index.slots[Fingerprint.ofString keyword]? = some slot ↔
      (keywordsOf rules)[slot]? = some keyword := by
  have hfiled : index.filed[slot]? = ((keywordsOf rules).map (bucketOf rules))[slot]? := by
    rw [← h.buckets, KeywordIndex.buckets, Array.getElem?_toList]
  rw [index.slots_iff, hfiled, List.getElem?_map, Option.map_map, Option.map_eq_some_iff]
  constructor
  · rintro ⟨other, hother, heq⟩
    have hliteral : other = keyword := congrArg Fingerprint.literal heq
    rwa [← hliteral]
  · intro hkeyword
    exact ⟨keyword, hkeyword, rfl⟩

theorem Files.insert_unkeyed (h : Files index rules) {rule : Rule} (he : rule.keyword = "") :
    Files (index.insert rule) (rules ++ [rule]) := by
  have hkeywords := keywordsOf_concat rules rule
  rw [if_pos (.inl he)] at hkeywords
  have hnew : rule.keyword ∉ keywordsOf rules := fun hmem => (mem_keywordsOf.1 hmem).1 he
  rw [KeywordIndex.insert, if_pos (by simp [he])]
  refine ⟨?_, by simp [h.unkeyed, he], by simp [h.size]⟩
  rw [hkeywords, map_bucketOf_concat hnew]
  exact h.buckets

theorem slotOf_of_some {keyword : Fingerprint} {slot : Nat}
    (h : index.slots[keyword]? = some slot) : index.slotOf keyword = (slot, index) := by
  unfold slotOf
  split <;> simp_all

theorem slotOf_of_none {keyword : Fingerprint} (h : index.slots[keyword]? = none) :
    (index.slotOf keyword).1 = index.filed.size ∧
      (index.slotOf keyword).2.filed = index.filed.push { keyword } ∧
      (index.slotOf keyword).2.unkeyed = index.unkeyed ∧
      (index.slotOf keyword).2.size = index.size := by
  unfold slotOf
  split
  · simp_all
  · exact ⟨rfl, rfl, rfl, rfl⟩

theorem modify_map_bucketOf {keywords : List String} (hnodup : keywords.Nodup) {rule : Rule}
    {slot : Nat} (hslot : keywords[slot]? = some rule.keyword) :
    ((keywords.map (bucketOf rules)).modify slot fun bucket =>
        { bucket with rules := bucket.rules.push rule }) =
      keywords.map (bucketOf (rules ++ [rule])) := by
  apply List.ext_getElem?
  intro i
  rw [List.getElem?_modify, List.getElem?_map, List.getElem?_map]
  cases hi : keywords[i]? with
  | none => rfl
  | some keyword =>
    simp only [Option.map_some, Option.map_eq_map]
    split
    · next heq =>
      subst heq
      rw [hslot] at hi
      cases hi
      rw [bucketOf_concat_self]
    · next hne =>
      have hother : rule.keyword ≠ keyword := by
        rintro rfl
        have hlt : slot < keywords.length := (List.getElem?_eq_some_iff.1 hslot).1
        exact hne ((List.getElem?_inj hlt hnodup).1 (hslot.trans hi.symm))
      rw [bucketOf_concat_of_ne hother]

theorem Files.insert_filed (h : Files index rules) {rule : Rule} (he : rule.keyword ≠ "")
    {slot : Nat} (hslot : (keywordsOf rules)[slot]? = some rule.keyword) :
    Files (index.insert rule) (rules ++ [rule]) := by
  have hkeywords := keywordsOf_concat rules rule
  rw [if_pos (.inr (List.mem_of_getElem? hslot))] at hkeywords
  rw [KeywordIndex.insert, if_neg (by simp [he]), slotOf_of_some (h.slots_eq_some_iff.2 hslot)]
  refine ⟨?_, by simp [fileAt, h.unkeyed, he], by simp [fileAt, h.size]⟩
  rw [hkeywords, ← modify_map_bucketOf (nodup_keywordsOf rules) hslot, ← h.buckets]
  exact Array.toList_modify

/-- A rule with a new keyword gets a bucket behind the others. -/
theorem Files.insert_new (h : Files index rules) {rule : Rule} (he : rule.keyword ≠ "")
    (hnew : rule.keyword ∉ keywordsOf rules) :
    Files (index.insert rule) (rules ++ [rule]) := by
  have hslots : index.slots[Fingerprint.ofString rule.keyword]? = none := by
    refine Option.eq_none_iff_forall_ne_some.2 fun slot hslot => hnew ?_
    exact List.mem_of_getElem? (h.slots_eq_some_iff.1 hslot)
  obtain ⟨hslot, hfiled, hunkeyed, hsize⟩ := slotOf_of_none hslots
  have hkeywords := keywordsOf_concat rules rule
  rw [if_neg (not_or.2 ⟨he, hnew⟩)] at hkeywords
  rw [KeywordIndex.insert, if_neg (by simp [he])]
  refine ⟨?_, by simp [fileAt, h.unkeyed, he, hunkeyed], by simp [fileAt, h.size, hsize]⟩
  have hbuckets : index.filed.toList = (keywordsOf rules).map (bucketOf rules) := h.buckets
  rw [hkeywords, List.map_append, map_bucketOf_concat hnew, List.map_singleton,
    bucketOf_concat_self, bucketOf_of_not_mem he hnew, ← hbuckets]
  simp only [KeywordIndex.buckets, fileAt, hslot, hfiled, Array.toList_modify, Array.toList_push]
  rw [← Array.length_toList]
  exact List.modifyTailIdx_add _ 0 index.filed.toList [_]

theorem Files.insert (h : Files index rules) (rule : Rule) :
    Files (index.insert rule) (rules ++ [rule]) := by
  by_cases he : rule.keyword = ""
  · exact h.insert_unkeyed he
  · by_cases hold : rule.keyword ∈ keywordsOf rules
    · obtain ⟨slot, hslot⟩ := List.getElem?_of_mem hold
      exact h.insert_filed he hslot
    · exact h.insert_new he hold

theorem Files.foldl_insert (h : Files index rules) (more : List Rule) :
    Files (more.foldl KeywordIndex.insert index) (rules ++ more) := by
  induction more generalizing index rules with
  | nil => simpa using h
  | cons rule more ih => simpa using ih (h.insert rule)

/-- Filing some rules one after the other into an empty index. -/
theorem files_foldl_insert (rules : List Rule) : Files (rules.foldl KeywordIndex.insert .empty) rules := by
  simpa using Files.empty.foldl_insert rules

/-! ## Candidates -/

theorem Files.candidates (h : Files index rules) (request : String) :
    index.candidates request = (candidateOrder rules).filter fun r =>
      (Fingerprint.ofString r.keyword).occursIn (Text.utf8 request.toList) := by
  generalize hbytes : Text.utf8 request.toList = bytes
  -- a bucket is looked at as a whole or not at all, since its rules share their keyword
  have hbucket : ∀ keyword, ((rules.filter (·.keyword = keyword)).filter fun r =>
        (Fingerprint.ofString r.keyword).occursIn bytes) =
      if (Fingerprint.ofString keyword).occursIn bytes then rules.filter (·.keyword = keyword)
      else [] := by
    intro keyword
    split
    · next hocc =>
      refine List.filter_eq_self.2 fun r hr => ?_
      rw [of_decide_eq_true (List.mem_filter.1 hr).2]
      exact hocc
    · next hocc =>
      refine List.filter_eq_nil_iff.2 fun r hr => ?_
      rw [of_decide_eq_true (List.mem_filter.1 hr).2]
      exact hocc
  have hempty : (Fingerprint.ofString "").occursIn bytes = true := by
    rw [← hbytes, Fingerprint.occursIn_ofString]
    exact List.nil_infix
  have hunkeyed := hbucket ""
  rw [if_pos hempty] at hunkeyed
  rw [KeywordIndex.candidates, candidateOrder, hbytes, List.filter_append, hunkeyed, h.unkeyed,
    List.filter_flatMap, h.buckets]
  congr 1
  induction keywordsOf rules with
  | nil => rfl
  | cons keyword keywords ih =>
    have hkeyword : (bucketOf rules keyword).keyword = Fingerprint.ofString keyword := rfl
    rw [List.map_cons, List.filter_cons, hkeyword, List.flatMap_cons, hbucket, ← ih]
    by_cases hocc : (Fingerprint.ofString keyword).occursIn bytes = true
    · simp [hocc, bucketOf]
    · simp [hocc]

end KeywordIndex

end AdFilter
