import AdFilter.Rule
import Std.Data.HashMap

/-!
# Rules by keyword

Every rule is filed under its keyword. For a request only the rules whose keyword occurs in its
address are looked at, and the rules without a keyword. The order of these candidates decides
which of several matching rules is found: keywords in the order in which they first came up, the
rules of one keyword in the order in which they were filed, and rules without a keyword at the
end. The buckets stand in a row, and every keyword has the slot of its bucket.
-/

namespace AdFilter

structure Bucket where
  keyword : Fingerprint
  rules : Array Rule := #[]

structure KeywordIndex where
  /-- a bucket for each keyword, in the order in which the keywords first came up -/
  filed : Array Bucket
  slots : Std.HashMap Fingerprint Nat
  /-- the rules without a keyword -/
  unkeyed : Array Rule
  /-- the number of all rules -/
  size : Nat
  slots_iff : ∀ (keyword : Fingerprint) (slot : Nat),
    slots[keyword]? = some slot ↔ filed[slot]?.map Bucket.keyword = some keyword

namespace KeywordIndex

def empty : KeywordIndex where
  filed := #[]
  slots := ∅
  unkeyed := #[]
  size := 0
  slots_iff := by simp

instance : Inhabited KeywordIndex :=
  ⟨empty⟩

theorem slots_iff_push (index : KeywordIndex) {keyword : Fingerprint}
    (hnew : index.slots[keyword]? = none) (other : Fingerprint) (slot : Nat) :
    (index.slots.insert keyword index.filed.size)[other]? = some slot ↔
      (index.filed.push { keyword })[slot]?.map Bucket.keyword = some other := by
  have hother := index.slots_iff other slot
  rw [Std.HashMap.getElem?_insert, Array.getElem?_push]
  simp only [beq_iff_eq]
  by_cases hslot : slot = index.filed.size
  · subst hslot
    by_cases hkeyword : keyword = other
    · simp [hkeyword]
    · simpa [hkeyword] using hother
  · by_cases hkeyword : keyword = other
    · subst hkeyword
      simpa [hslot, hnew, Ne.symm hslot] using hother
    · simpa [hslot, hkeyword] using hother

/-- The slot of the bucket of a keyword. If there is none, an empty one is put behind all others. -/
def slotOf (index : KeywordIndex) (keyword : Fingerprint) : Nat × KeywordIndex :=
  match h : index.slots[keyword]? with
  | some slot => (slot, index)
  | none =>
    let slot := index.filed.size
    (slot, { index with
      filed := index.filed.push { keyword }
      slots := index.slots.insert keyword slot
      slots_iff := index.slots_iff_push h })

def fileAt (index : KeywordIndex) (slot : Nat) (rule : Rule) : KeywordIndex :=
  { index with
    filed := index.filed.modify slot fun bucket => { bucket with rules := bucket.rules.push rule }
    size := index.size + 1
    slots_iff := by
      intro keyword other
      rw [index.slots_iff, Array.getElem?_modify]
      split
      · rw [Option.map_map]
        rfl
      · rfl }

def insert (index : KeywordIndex) (rule : Rule) : KeywordIndex :=
  if rule.keyword.isEmpty then
    { index with unkeyed := index.unkeyed.push rule, size := index.size + 1 }
  else
    let (slot, index) := index.slotOf (Fingerprint.ofString rule.keyword)
    index.fileAt slot rule

def buckets (index : KeywordIndex) : List Bucket :=
  index.filed.toList

/-- The rules that can match a request for an address, in the order in which they are looked at. -/
def candidates (index : KeywordIndex) (request : String) : List Rule :=
  let bytes := Text.utf8 request.toList
  (index.buckets.filter (·.keyword.occursIn bytes)).flatMap (·.rules.toList) ++
    index.unkeyed.toList

def find? (index : KeywordIndex) (mode : ConstraintMode) (source request : String) : Option Rule :=
  (index.candidates request).find? (·.isMatch mode source request)

end KeywordIndex

end AdFilter
