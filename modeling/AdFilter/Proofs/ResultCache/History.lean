import AdFilter.Proofs.ResultCache

/-!
# The history of a cache

The keys that were used, one after the other, are the history of a cache. `Tracks` says how the entries
of a cache fit it: every entry carries the place of its last use, and a key that was dropped was last
used before all those that are held. A use keeps that, and so does dropping the key that was not used
for longest (`Tracks.remove_oldest`), however often it is done. As no two entries were last used at the
same time, there is one such key as long as there is an entry, and to make room drops exactly a batch
of them (`size_evict`).
-/

namespace AdFilter.ResultCache

section
variable {cache : ResultCache} {used : List Key}

theorem batch_pos (cache : ResultCache) : 0 < cache.batch :=
  Nat.lt_of_lt_of_le Nat.one_pos (Nat.le_max_left _ _)

theorem batch_le_capacity (cache : ResultCache) : cache.batch ≤ cache.capacity := by
  have := cache.capacity_pos
  unfold batch
  omega

theorem size_use (cache : ResultCache) (key : Key) (blocked : Bool) :
    (cache.use key blocked).size =
      if key ∈ cache.entries then cache.size else cache.size + 1 :=
  Std.HashMap.size_insert

theorem mem_entries_use {key other : Key} {blocked : Bool} :
    other ∈ (cache.use key blocked).entries ↔ key = other ∨ other ∈ cache.entries := by
  simp [use, Std.HashMap.mem_insert]

/-! ## Entries and their last use -/

/-- The cache knows for its entries when they were last used, where the keys were used in their order.
What was dropped was last used before that. -/
structure Tracks (cache : ResultCache) (used : List Key) : Prop where
  clock : cache.clock = used.length
  lastUse : ∀ (key : Key) (entry : Entry), cache.entries[key]? = some entry →
    ∃ back, used.drop entry.lastUse = key :: back ∧ key ∉ back
  dropped : ∀ key ∈ used, key ∉ cache.entries → ∀ (other : Key) (entry : Entry),
    cache.entries[other]? = some entry → key ∉ used.drop entry.lastUse

/-- A further use comes behind everything that was used since. -/
theorem Tracks.drop_concat (h : Tracks cache used) {other : Key} {entry : Entry}
    (hentry : cache.entries[other]? = some entry) (key : Key) :
    (used ++ [key]).drop entry.lastUse = used.drop entry.lastUse ++ [key] := by
  obtain ⟨back, hback, -⟩ := h.lastUse other entry hentry
  refine List.drop_append_of_le_length ?_
  have := congrArg List.length hback
  simp at this
  omega

theorem Tracks.use (h : Tracks cache used) (key : Key) (blocked : Bool) :
    Tracks (cache.use key blocked) (used ++ [key]) where
  clock := by simp [ResultCache.use, h.clock]
  lastUse other entry hentry := by
    simp only [ResultCache.use, Std.HashMap.getElem?_insert, beq_iff_eq] at hentry
    split at hentry
    · next hkey =>
      cases hentry
      exact ⟨[], by simp [h.clock, hkey], by simp⟩
    · next hkey =>
      obtain ⟨back, hback, hnew⟩ := h.lastUse other entry hentry
      refine ⟨back ++ [key], by rw [h.drop_concat hentry, hback, List.cons_append], ?_⟩
      simp [hnew, Ne.symm hkey]
  dropped other hused hgone third entry hentry := by
    rw [mem_entries_use, not_or] at hgone
    obtain ⟨hkey, hgone⟩ := hgone
    have hused : other ∈ used := by simpa [Ne.symm hkey] using hused
    simp only [ResultCache.use, Std.HashMap.getElem?_insert] at hentry
    split at hentry
    · cases hentry
      simp [h.clock, Ne.symm hkey]
    · rw [h.drop_concat hentry, List.mem_append, not_or, List.mem_singleton]
      exact ⟨h.dropped other hused hgone third entry hentry, Ne.symm hkey⟩

theorem not_mem_drop_of_lt {key : Key} {back : List Key} {i j : Nat}
    (hi : used.drop i = key :: back) (hback : key ∉ back) (hij : i < j) : key ∉ used.drop j := by
  obtain ⟨n, rfl⟩ : ∃ n, j = i + (n + 1) := ⟨j - i - 1, by omega⟩
  rw [← List.drop_drop, hi, List.drop_succ_cons]
  exact fun hmem => hback (List.mem_of_mem_drop hmem)

/-! ## Making room -/

theorem getElem?_order_lastUse {key : Key} {entry : Entry} (h : cache.entries[key]? = some entry) :
    cache.order[entry.lastUse]? = some key :=
  (cache.order_iff _ _).2 (by rw [h, Option.map_some])

theorem lastUse_mem_order {key : Key} {entry : Entry} (h : cache.entries[key]? = some entry) :
    entry.lastUse ∈ cache.order :=
  Std.TreeMap.mem_iff_isSome_getElem?.2 (Option.isSome_of_eq_some (getElem?_order_lastUse h))

/-- The oldest key is that of an entry, and no other entry was last used before it or with it. -/
theorem lastUse_lt_of_oldest? {key : Key} (h : cache.oldest? = some key) :
    ∃ entry, cache.entries[key]? = some entry ∧
      ∀ (other : Key) (e : Entry), key ≠ other → cache.entries[other]? = some e →
        entry.lastUse < e.lastUse := by
  obtain ⟨time, hmin, htime⟩ := Option.bind_eq_some_iff.1 h
  obtain ⟨entry, hentry, rfl⟩ := Option.map_eq_some_iff.1 ((cache.order_iff time key).1 htime)
  refine ⟨entry, hentry, fun other e hne he => ?_⟩
  have hle : entry.lastUse ≤ e.lastUse :=
    Nat.isLE_compare.1
      ((Std.TreeMap.minKey?_eq_some_iff_mem_and_forall.1 hmin).2 _ (lastUse_mem_order he))
  refine Nat.lt_of_le_of_ne hle fun hsame => hne ?_
  rw [hsame, getElem?_order_lastUse he] at htime
  exact (Option.some.inj htime).symm

theorem minKey?_order_eq_none (h : cache.oldest? = none) : cache.order.minKey? = none := by
  cases hmin : cache.order.minKey? with
  | none => rfl
  | some time =>
    have hmem := (Std.TreeMap.minKey?_eq_some_iff_mem_and_forall.1 hmin).1
    rw [Std.TreeMap.mem_iff_isSome_getElem?] at hmem
    rw [oldest?, hmin, Option.bind_some] at h
    rw [h] at hmem
    cases hmem

theorem size_of_oldest?_eq_none (h : cache.oldest? = none) : cache.size = 0 := by
  have horder := Std.TreeMap.isEmpty_iff_forall_not_mem.1
    (Std.TreeMap.minKey?_eq_none_iff.1 (minKey?_order_eq_none h))
  refine beq_iff_eq.1 (Std.HashMap.isEmpty_iff_forall_not_mem.2 fun key hkey => ?_)
  obtain ⟨entry, hentry⟩ := mem_entries_iff.1 hkey
  exact horder _ (lastUse_mem_order hentry)

/-- To drop the oldest key leaves the last uses of all others. -/
theorem Tracks.remove_oldest (h : Tracks cache used) {key : Key} (hkey : cache.oldest? = some key) :
    Tracks (cache.remove key) used := by
  obtain ⟨entry, hentry, holdest⟩ := lastUse_lt_of_oldest? hkey
  have hrest : ∀ (other : Key) (e : Entry), (cache.remove key).entries[other]? = some e →
      key ≠ other ∧ cache.entries[other]? = some e := by
    intro other e he
    rw [ResultCache.remove, Std.HashMap.getElem?_erase] at he
    simpa using he
  refine ⟨h.clock, fun other e he => h.lastUse other e (hrest other e he).2,
    fun gone hused hgone other e he => ?_⟩
  obtain ⟨hne, he⟩ := hrest other e he
  by_cases hnow : key = gone
  · subst hnow
    obtain ⟨back, hback, hnew⟩ := h.lastUse key entry hentry
    exact not_mem_drop_of_lt hback hnew (holdest other e hne he)
  · have hbefore : gone ∉ cache.entries := by
      simpa [ResultCache.remove, hnow] using hgone
    exact h.dropped gone hused hbefore other e he

theorem Tracks.dropOldest (h : Tracks cache used) (n : Nat) :
    Tracks (cache.dropOldest n) used := by
  induction n generalizing cache with
  | zero => exact h
  | succ n ih =>
    rw [ResultCache.dropOldest]
    split
    · next hkey => exact ih (h.remove_oldest hkey)
    · exact h

theorem Tracks.evict (h : Tracks cache used) : Tracks cache.evict used :=
  h.dropOldest _

theorem size_remove_oldest {key : Key} (h : cache.oldest? = some key) :
    (cache.remove key).size = cache.size - 1 := by
  obtain ⟨entry, hentry, -⟩ := lastUse_lt_of_oldest? h
  rw [size, remove, Std.HashMap.size_erase, if_pos (mem_entries_iff.2 ⟨entry, hentry⟩), size]

theorem size_dropOldest (cache : ResultCache) (n : Nat) :
    (cache.dropOldest n).size = cache.size - n := by
  induction n generalizing cache with
  | zero => rfl
  | succ n ih =>
    rw [dropOldest]
    split
    · next hkey =>
      rw [ih, size_remove_oldest hkey]
      omega
    · next hnone =>
      have hempty := size_of_oldest?_eq_none hnone
      omega

theorem size_evict (cache : ResultCache) : cache.evict.size = cache.size - cache.batch :=
  size_dropOldest _ _

/-! ## The order of last uses -/

/-- The last use of a key came before the last use of another one. -/
def LastUsedBefore (used : List Key) (key other : Key) : Prop :=
  key ∈ used ∧ ∃ front back, used = front ++ other :: back ∧ key ∉ other :: back

theorem Tracks.lastUsedBefore (h : Tracks cache used) {key other : Key} (hused : key ∈ used)
    (hgone : key ∉ cache.entries) (hheld : other ∈ cache.entries) :
    LastUsedBefore used key other := by
  obtain ⟨entry, hentry⟩ := mem_entries_iff.1 hheld
  obtain ⟨back, hback, -⟩ := h.lastUse other entry hentry
  refine ⟨hused, used.take entry.lastUse, back, ?_, ?_⟩
  · rw [← hback, List.take_append_drop]
  · rw [← hback]
    exact h.dropped key hused hgone other entry hentry

/-- What was last used after a use of some key was used behind that use. -/
theorem LastUsedBefore.mem_back {key other : Key} {front back : List Key}
    (h : LastUsedBefore (front ++ key :: back) key other) : other ∈ back ∧ other ≠ key := by
  obtain ⟨-, front', back', hsplit, hkey⟩ := h
  have hne : other ≠ key := fun he => hkey (by simp [he])
  refine ⟨?_, hne⟩
  rcases List.append_eq_append_iff.1 hsplit with ⟨middle, -, hback⟩ | ⟨middle, -, hback⟩
  · cases middle with
    | nil => exact absurd (List.cons.inj hback).1.symm hne
    | cons first middle =>
      obtain ⟨rfl, rfl⟩ := List.cons.inj hback
      simp
  · exact absurd (by simp [hback]) hkey

end

end AdFilter.ResultCache
