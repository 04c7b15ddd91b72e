import AdFilter.ResultCache

/-!
# What a cache holds after it is written

To set a result is to use its key, and to make room if the key is new and there are too many entries
then (`set_eq_ite`). To make room alters no entry that stays, so what is held afterwards was set now or
held before (`of_held?_set`).
-/

namespace AdFilter.ResultCache

section
variable {cache : ResultCache} {key : Key}

theorem mem_entries_iff : key ∈ cache.entries ↔ ∃ entry, cache.entries[key]? = some entry :=
  Std.HashMap.mem_iff_isSome_getElem?.trans Option.isSome_iff_exists

theorem held?_eq_none_iff : cache.held? key = none ↔ key ∉ cache.entries := by
  simp [held?]

theorem held?_ne_none_iff : cache.held? key ≠ none ↔ key ∈ cache.entries := by
  simp [held?]

theorem held?_of_empty? {capacity : Nat} (h : empty? capacity = some cache) (key : Key) :
    cache.held? key = none := by
  unfold empty? at h
  split at h
  · cases h
    simp [held?]
  · cases h

theorem capacity_of_empty? {capacity : Nat} (h : empty? capacity = some cache) :
    cache.capacity = capacity := by
  unfold empty? at h
  split at h
  · cases h
    rfl
  · cases h

theorem set_eq_ite (cache : ResultCache) (key : Key) (blocked : Bool) :
    cache.set key blocked =
      if key ∉ cache.entries ∧ cache.capacity < (cache.use key blocked).size then
        (cache.use key blocked).evict
      else cache.use key blocked := by
  have hcapacity : (cache.use key blocked).capacity = cache.capacity := rfl
  simp [set, hcapacity]

theorem set_eq_use {blocked : Bool} (h : (cache.use key blocked).size ≤ cache.capacity) :
    cache.set key blocked = cache.use key blocked := by
  rw [set_eq_ite, if_neg fun hfull => Nat.not_lt.2 h hfull.2]

theorem capacity_dropOldest (cache : ResultCache) (n : Nat) :
    (cache.dropOldest n).capacity = cache.capacity := by
  induction n generalizing cache with
  | zero => rfl
  | succ n ih =>
    rw [dropOldest]
    split
    · exact ih _
    · rfl

theorem capacity_evict (cache : ResultCache) : cache.evict.capacity = cache.capacity :=
  capacity_dropOldest _ _

theorem capacity_set (cache : ResultCache) (key : Key) (blocked : Bool) :
    (cache.set key blocked).capacity = cache.capacity := by
  rw [set_eq_ite]
  split
  · exact capacity_evict _
  · rfl

/-- Making room for a result drops entries, but alters none. -/
theorem held?_use_of_held?_set {other : Key} {blocked b : Bool}
    (h : (cache.set key blocked).held? other = some b) :
    (cache.use key blocked).held? other = some b := by
  rw [set_eq_ite] at h
  split at h
  · exact held?_of_held?_evict h
  · exact h

theorem of_held?_set {other : Key} {blocked b : Bool}
    (h : (cache.set key blocked).held? other = some b) :
    (key = other ∧ b = blocked) ∨ cache.held? other = some b := by
  have hused := held?_use_of_held?_set h
  rw [held?_use] at hused
  split at hused
  · next hkey => exact .inl ⟨hkey, (Option.some.inj hused).symm⟩
  · exact .inr hused

end

end AdFilter.ResultCache
