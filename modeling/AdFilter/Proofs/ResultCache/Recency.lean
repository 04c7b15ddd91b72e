import AdFilter.Proofs.ResultCache.History

/-!
# The results that were used last

A cache is used by calls. The invariant of all runs is `Recent`: the cache stays within its capacity,
and once a key was dropped it lacks less than a batch of being full. So a key is dropped only when so
many others were used after it (`Recent.mem_of_used`), and what is held after any calls is told by the
history of used keys alone.
-/

namespace AdFilter.ResultCache

/-! ## Calls -/

inductive Call where
  | get (key : Key)
  | set (key : Key) (blocked : Bool)

def call (cache : ResultCache) : Call → ResultCache
  | .get key => (cache.get? key).2
  | .set key blocked => cache.set key blocked

def afterCalls (cache : ResultCache) (calls : List Call) : ResultCache :=
  calls.foldl call cache

/-- The key that a call uses. To look for a key that is not held uses none. -/
def usedBy (cache : ResultCache) : Call → List Key
  | .get key => if cache.held? key = none then [] else [key]
  | .set key _ => [key]

def usedKeys (cache : ResultCache) : List Call → List Key
  | [] => []
  | c :: calls => cache.usedBy c ++ (cache.call c).usedKeys calls

def Call.setFor? (key : Key) : Call → Option Bool
  | .get _ => none
  | .set other blocked => if other = key then some blocked else none

def resultsSet (calls : List Call) (key : Key) : List Bool :=
  calls.filterMap (Call.setFor? key)

section
variable {cache : ResultCache} {used : List Key}

@[simp]
theorem afterCalls_nil (cache : ResultCache) : cache.afterCalls [] = cache :=
  rfl

@[simp]
theorem afterCalls_cons (cache : ResultCache) (c : Call) (calls : List Call) :
    cache.afterCalls (c :: calls) = (cache.call c).afterCalls calls :=
  rfl

@[simp]
theorem usedBy_set (cache : ResultCache) (key : Key) (blocked : Bool) :
    cache.usedBy (.set key blocked) = [key] :=
  rfl

theorem usedBy_get {key : Key} (h : cache.held? key ≠ none) : cache.usedBy (.get key) = [key] :=
  if_neg h

theorem capacity_call (cache : ResultCache) (c : Call) :
    (cache.call c).capacity = cache.capacity := by
  cases c with
  | set key blocked => exact capacity_set cache key blocked
  | get key =>
    rw [call, get?]
    split <;> rfl

theorem capacity_afterCalls (cache : ResultCache) (calls : List Call) :
    (cache.afterCalls calls).capacity = cache.capacity := by
  induction calls generalizing cache with
  | nil => rfl
  | cons c calls ih => exact (ih (cache.call c)).trans (capacity_call cache c)

/-! ## One use -/

/-- The cache holds the keys that were used last, up to its capacity. Once a key was dropped, the
cache is full but for a batch. -/
structure Recent (cache : ResultCache) (used : List Key) : Prop extends Tracks cache used where
  size_le : cache.size ≤ cache.capacity
  full : ∀ key ∈ used, key ∉ cache.entries → cache.capacity + 1 - cache.batch ≤ cache.size

theorem recent_empty {capacity : Nat} (h : 0 < capacity) : Recent (empty capacity h) [] where
  clock := rfl
  lastUse := by simp
  dropped := by simp
  size_le := by simp [size]
  full := by simp

theorem Recent.use (h : Recent cache used) {key : Key} {blocked : Bool}
    (hroom : (cache.use key blocked).size ≤ cache.capacity) :
    Recent (cache.use key blocked) (used ++ [key]) where
  toTracks := h.toTracks.use key blocked
  size_le := hroom
  full other hused hgone := by
    rw [mem_entries_use, not_or] at hgone
    obtain ⟨hkey, hgone⟩ := hgone
    have hused : other ∈ used := by simpa [Ne.symm hkey] using hused
    have hfull : cache.capacity + 1 - cache.batch ≤ cache.size := h.full other hused hgone
    have hgrown : cache.size ≤ (cache.use key blocked).size := by
      rw [size_use]
      split <;> omega
    exact Nat.le_trans hfull hgrown

theorem Recent.size_use_le (h : Recent cache used) {key : Key} (blocked : Bool)
    (hroom : key ∈ cache.entries ∨ cache.size < cache.capacity) :
    (cache.use key blocked).size ≤ cache.capacity := by
  have hle := h.size_le
  rw [size_use]
  split
  · exact hle
  · next hnew => exact hroom.resolve_left hnew

theorem set_eq_evict {key : Key} (blocked : Bool)
    (hnew : key ∉ cache.entries) (hfull : cache.size = cache.capacity) :
    cache.set key blocked = (cache.use key blocked).evict ∧
      (cache.use key blocked).evict.size = cache.capacity + 1 - cache.batch := by
  have hsize : (cache.use key blocked).size = cache.capacity + 1 := by
    rw [size_use, if_neg hnew, hfull]
  constructor
  · rw [set_eq_ite, if_pos ⟨hnew, by omega⟩]
  · rw [← hsize]
    exact size_evict _

theorem Recent.set (h : Recent cache used) (key : Key) (blocked : Bool) :
    Recent (cache.set key blocked) (used ++ [key]) := by
  by_cases hroom : key ∈ cache.entries ∨ cache.size < cache.capacity
  · have hsize := h.size_use_le blocked hroom
    rw [set_eq_use hsize]
    exact h.use hsize
  · obtain ⟨hnew, hfull⟩ := not_or.1 hroom
    obtain ⟨hset, hsize⟩ :=
      set_eq_evict blocked hnew (Nat.le_antisymm h.size_le (Nat.not_lt.1 hfull))
    have hcapacity : (cache.use key blocked).evict.capacity = cache.capacity := capacity_evict _
    have hbatch : (cache.use key blocked).evict.batch = cache.batch := by
      unfold batch
      rw [hcapacity]
    have hpos := batch_pos cache
    rw [hset]
    refine ⟨(h.toTracks.use key blocked).evict, ?_, fun _ _ _ => ?_⟩
    · rw [hsize, hcapacity]
      omega
    · exact Nat.le_of_eq (by rw [hsize, hcapacity, hbatch])

/-! ## Runs -/

theorem Recent.call (h : Recent cache used) (c : Call) :
    Recent (cache.call c) (used ++ cache.usedBy c) := by
  cases c with
  | set key blocked => exact h.set key blocked
  | get key =>
    rw [ResultCache.call]
    cases hkey : cache.entries[key]? with
    | none =>
      have hget : (cache.get? key).2 = cache := by simp only [get?, hkey]
      have hused : cache.usedBy (.get key) = [] := if_pos (by simp [held?, hkey])
      rw [hget, hused, List.append_nil]
      exact h
    | some entry =>
      have hheld : key ∈ cache.entries := mem_entries_iff.2 ⟨entry, hkey⟩
      have hget : (cache.get? key).2 = cache.use key entry.blocked := by simp only [get?, hkey]
      rw [hget, usedBy_get (held?_ne_none_iff.2 hheld)]
      exact h.use (h.size_use_le entry.blocked (.inl hheld))

theorem Recent.afterCalls (h : Recent cache used) (calls : List Call) :
    Recent (cache.afterCalls calls) (used ++ cache.usedKeys calls) := by
  induction calls generalizing cache used with
  | nil =>
    rw [usedKeys, List.append_nil]
    exact h
  | cons c calls ih =>
    have hrest := ih (h.call c)
    rwa [List.append_assoc] at hrest

/-- Every entry is the result that was set last for its key. -/
def HoldsResultsOf (cache : ResultCache) (calls : List Call) : Prop :=
  ∀ key blocked, cache.held? key = some blocked → (resultsSet calls key).getLast? = some blocked

theorem HoldsResultsOf.call {calls : List Call} (h : cache.HoldsResultsOf calls) (c : Call) :
    (cache.call c).HoldsResultsOf (calls ++ [c]) := by
  intro other b hheld
  have hset : resultsSet (calls ++ [c]) other =
      resultsSet calls other ++ (c.setFor? other).toList := by
    unfold resultsSet
    rw [List.filterMap_append]
    cases hc : c.setFor? other <;> simp [hc]
  rw [hset]
  cases c with
  | get key =>
    rw [ResultCache.call, held?_get?] at hheld
    simpa [Call.setFor?] using h other b hheld
  | set key blocked =>
    have hused := held?_use_of_held?_set hheld
    rw [held?_use] at hused
    by_cases hkey : key = other
    · rw [if_pos hkey] at hused
      simpa [Call.setFor?, hkey] using hused
    · rw [if_neg hkey] at hused
      simpa [Call.setFor?, hkey] using h other b hused

theorem HoldsResultsOf.afterCalls {before : List Call} (h : cache.HoldsResultsOf before)
    (calls : List Call) : (cache.afterCalls calls).HoldsResultsOf (before ++ calls) := by
  induction calls generalizing cache before with
  | nil =>
    rw [List.append_nil]
    exact h
  | cons c calls ih =>
    have hrest := ih (h.call c)
    rwa [List.append_assoc] at hrest

theorem mem_usedKeys_of_resultsSet {calls : List Call} {key : Key}
    (h : resultsSet calls key ≠ []) : key ∈ cache.usedKeys calls := by
  induction calls generalizing cache with
  | nil => exact absurd rfl h
  | cons c calls ih =>
    rw [usedKeys, List.mem_append]
    by_cases hused : key ∈ cache.usedBy c
    · exact .inl hused
    · right
      have hnone : c.setFor? key = none := by
        cases c with
        | get other => rfl
        | set other blocked => exact if_neg fun hkey => hused (by simp [usedBy, hkey])
      rw [resultsSet, List.filterMap_cons_none hnone] at h
      exact ih h

/-! ## What is held after a run -/

/-- A key is dropped only when as many other keys were used after it as are left in a cache that has
made room. -/
theorem Recent.mem_of_used (h : Recent cache used) {key : Key} {front back : List Key}
    (hused : used = front ++ key :: back)
    (hothers : (back.filter (· ≠ key)).eraseDups.length ≤ cache.capacity - cache.batch) :
    key ∈ cache.entries := by
  apply Classical.byContradiction
  intro hgone
  have hmem : key ∈ used := by simp [hused]
  have hsub : cache.entries.keys ⊆ (back.filter (· ≠ key)).eraseDups := by
    intro other hother
    have hlast := h.lastUsedBefore hmem hgone (Std.HashMap.mem_keys.1 hother)
    rw [hused] at hlast
    obtain ⟨hback, hne⟩ := hlast.mem_back
    simp [hback, hne]
  have hlength : cache.size ≤ (back.filter (· ≠ key)).eraseDups.length := by
    rw [size, ← Std.HashMap.length_keys]
    exact Std.HashMap.nodup_keys.length_le_of_subset hsub
  have hfull := h.full key hmem hgone
  have hbatch := batch_le_capacity cache
  omega

/-- What a cache of some capacity holds after calls that used some keys, one after the other. -/
structure KeepsRecent (capacity : Nat) (calls : List Call) (used : List Key)
    (cache : ResultCache) : Prop where
  mem_keys : ∀ key, key ∈ cache.entries.keys ↔ cache.held? key ≠ none
  nodup_keys : cache.entries.keys.Nodup
  length_keys : cache.entries.keys.length = cache.size
  answers : ∀ key, (cache.get? key).1 = cache.held? key
  size_le : cache.size ≤ capacity
  latest : ∀ key blocked, cache.held? key = some blocked →
    (resultsSet calls key).getLast? = some blocked
  dropped : ∀ key other, resultsSet calls key ≠ [] → cache.held? key = none →
    cache.held? other ≠ none → LastUsedBefore used key other
  /-- nothing is dropped for a key that is held, or while there is room -/
  set_keeps : ∀ key blocked, cache.held? key ≠ none ∨ cache.size < capacity →
    ∀ other, (cache.set key blocked).held? other =
      if key = other then some blocked else cache.held? other
  /-- a new key in a full cache -/
  set_full : ∀ key blocked, cache.held? key = none → cache.size = capacity →
    (cache.set key blocked).size = capacity + 1 - max 1 (capacity / 20) ∧
      (cache.set key blocked).held? key = some blocked
  kept : ∀ key front back, used = front ++ key :: back →
    (back.filter (· ≠ key)).eraseDups.length ≤ capacity - max 1 (capacity / 20) →
    cache.held? key ≠ none

theorem Recent.keepsRecent (h : Recent cache used) {calls : List Call}
    (hresults : cache.HoldsResultsOf calls) (hused : ∀ key, resultsSet calls key ≠ [] → key ∈ used) :
    KeepsRecent cache.capacity calls used cache where
  mem_keys _ := Std.HashMap.mem_keys.trans held?_ne_none_iff.symm
  nodup_keys := Std.HashMap.nodup_keys
  length_keys := Std.HashMap.length_keys
  answers := cache.get?_eq_held?
  size_le := h.size_le
  latest := hresults
  dropped key other hset hgone hheld :=
    h.lastUsedBefore (hused key hset) (held?_eq_none_iff.1 hgone) (held?_ne_none_iff.1 hheld)
  set_keeps key blocked hroom other := by
    rw [held?_ne_none_iff] at hroom
    rw [set_eq_use (h.size_use_le blocked hroom), held?_use]
  set_full key blocked hnew hfull := by
    obtain ⟨hset, hsize⟩ := set_eq_evict blocked (held?_eq_none_iff.1 hnew) hfull
    have hheld : (cache.set key blocked).held? key ≠ none :=
      held?_ne_none_iff.2 ((h.set key blocked).mem_of_used rfl (by simp))
    obtain ⟨b, hb⟩ := Option.ne_none_iff_exists'.1 hheld
    have hvalue := held?_use_of_held?_set hb
    rw [held?_use, if_pos rfl] at hvalue
    exact ⟨by rw [hset, hsize, batch], by rw [hb, hvalue]⟩
  kept key _ _ hsplit hothers := held?_ne_none_iff.2 (h.mem_of_used hsplit hothers)

end

/-- Whatever it is asked for, a cache of any capacity but zero keeps the results that were used last. -/
theorem exists_empty_keepsRecent (capacity : Nat) (h : 0 < capacity) :
    ∃ start, empty? capacity = some start ∧ ∀ calls,
      KeepsRecent capacity calls (start.usedKeys calls) (start.afterCalls calls) := by
  refine ⟨empty capacity h, dif_pos h, fun calls => ?_⟩
  have hresults : HoldsResultsOf (empty capacity h) [] := by
    intro key blocked hheld
    simp [held?] at hheld
  have hkeeps := ((recent_empty h).afterCalls calls).keepsRecent (hresults.afterCalls calls)
    fun _ => mem_usedKeys_of_resultsSet
  rwa [capacity_afterCalls] at hkeeps

/-- A cache with room for two: the key that was looked up stays, the other one makes room. -/
theorem exists_empty_keepsRecent_two :
    let a : Key := ⟨"site.test", "a"⟩
    let b : Key := ⟨"site.test", "b"⟩
    let c : Key := ⟨"site.test", "c"⟩
    ∃ start, empty? 2 = some start ∧
      let cache := start.afterCalls [.set a true, .set b false, .get a, .set c false]
      cache.held? a = some true ∧ cache.held? b = none := by
  intro a b c
  obtain ⟨start, hstart, hkeeps⟩ := exists_empty_keepsRecent 2 (by decide)
  refine ⟨start, hstart, ?_⟩
  intro cache
  have hhit := (hkeeps [.set a true, .set b false]).kept a [] [b] rfl (by decide)
  rw [afterCalls_cons, afterCalls_cons, afterCalls_nil] at hhit
  have hused : start.usedKeys [.set a true, .set b false, .get a, .set c false] = [a, b, a, c] := by
    simp only [usedKeys, usedBy_set, usedBy_get hhit, List.cons_append, List.nil_append]
  have hkeeps := hkeeps [.set a true, .set b false, .get a, .set c false]
  rw [hused] at hkeeps
  have ha : cache.held? a ≠ none := hkeeps.kept a [a, b] [c] rfl (by decide)
  have hc : cache.held? c ≠ none := hkeeps.kept c [a, b, a] [] rfl (by decide)
  constructor
  · obtain ⟨blocked, hblocked⟩ := Option.ne_none_iff_exists'.1 ha
    have hlatest := hkeeps.latest a blocked hblocked
    rw [hblocked, ← hlatest]
    decide
  · apply Classical.byContradiction
    intro hb
    have hsub : [a, b, c] ⊆ cache.entries.keys := by
      intro key hkey
      simp only [List.mem_cons, List.not_mem_nil, or_false] at hkey
      obtain rfl | rfl | rfl := hkey
      · exact (hkeeps.mem_keys a).2 ha
      · exact (hkeeps.mem_keys b).2 hb
      · exact (hkeeps.mem_keys c).2 hc
    have hthree : [a, b, c].length ≤ cache.entries.keys.length :=
      List.Nodup.length_le_of_subset (by decide) hsub
    rw [hkeeps.length_keys] at hthree
    exact absurd (Nat.le_trans hthree hkeeps.size_le) (by decide)

end AdFilter.ResultCache
