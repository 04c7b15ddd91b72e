import Std.Data.HashMap
import Std.Data.TreeMap

/-!
# The cache of results

The cache remembers for pairs of source and request whether the request is blocked. Every entry
carries the time of its last use, counted in uses of the cache; a use is an entry that is set, or
looked up and found. The keys are also kept in the order of these times, so the entry that was not used
for longest is at hand. When the cache holds more than its capacity, such entries are dropped, one after
the other, a twentieth of the capacity at a time but at least one. `held?` is what the cache holds, and
its lemmas say what the operations do to it.
-/

namespace AdFilter

namespace ResultCache

structure Key where
  source : String
  request : String
  deriving DecidableEq, Repr, Hashable

structure Entry where
  blocked : Bool
  lastUse : Nat
  deriving DecidableEq, Repr

def defaultCapacity : Nat := 50000

end ResultCache

open ResultCache in
structure ResultCache where
  capacity : Nat
  capacity_pos : 0 < capacity
  entries : Std.HashMap Key Entry
  /-- the keys of the entries, by the time of their last use -/
  order : Std.TreeMap Nat Key
  /-- the number of uses so far -/
  clock : Nat
  order_iff : ∀ (time : Nat) (key : Key),
    order[time]? = some key ↔ entries[key]?.map Entry.lastUse = some time
  lastUse_lt : ∀ (key : Key) (entry : Entry),
    entries[key]? = some entry → entry.lastUse < clock

namespace ResultCache

def empty (capacity : Nat) (h : 0 < capacity) : ResultCache where
  capacity := capacity
  capacity_pos := h
  entries := ∅
  order := ∅
  clock := 0
  order_iff := by simp
  lastUse_lt := by simp

/-- An empty cache, unless it could hold nothing. -/
def empty? (capacity : Nat) : Option ResultCache :=
  if h : 0 < capacity then some (empty capacity h) else none

@[simp] theorem capacity_empty {capacity : Nat} (h : 0 < capacity) :
    (empty capacity h).capacity = capacity := rfl

@[simp] theorem entries_empty {capacity : Nat} (h : 0 < capacity) :
    (empty capacity h).entries = ∅ := rfl

def size (cache : ResultCache) : Nat :=
  cache.entries.size

/-- The number of entries that are dropped at a time. -/
def batch (cache : ResultCache) : Nat :=
  max 1 (cache.capacity / 20)

/-! ## Uses -/

def orderWithout (cache : ResultCache) (key : Key) : Std.TreeMap Nat Key :=
  match cache.entries[key]? with
  | some entry => cache.order.erase entry.lastUse
  | none => cache.order

theorem getElem?_orderWithout {cache : ResultCache} {key other : Key} {time : Nat} :
    (cache.orderWithout key)[time]? = some other ↔
      key ≠ other ∧ cache.order[time]? = some other := by
  have hother := cache.order_iff time other
  unfold orderWithout
  split
  · next entry hentry =>
    have hkey := cache.order_iff time key
    rw [hentry, Option.map_some, Option.some_inj] at hkey
    simp only [Std.TreeMap.getElem?_erase, Nat.compare_eq_eq]
    split
    · next htime => simp [hkey.2 htime]
    · next htime =>
      refine (and_iff_right_of_imp ?_).symm
      rintro hother' rfl
      exact htime (hkey.1 hother')
  · next hnone =>
    refine (and_iff_right_of_imp ?_).symm
    rintro hother' rfl
    simp [hnone] at hother
    exact hother hother'

theorem lastUse_ne_clock (cache : ResultCache) (key : Key) :
    cache.entries[key]?.map Entry.lastUse ≠ some cache.clock := by
  intro h
  obtain ⟨entry, hentry, hlast⟩ := Option.map_eq_some_iff.1 h
  exact Nat.ne_of_lt (cache.lastUse_lt key entry hentry) hlast

/-- The cache after an entry was used now. -/
def use (cache : ResultCache) (key : Key) (blocked : Bool) : ResultCache :=
  let order := (cache.orderWithout key).insert cache.clock key
  { cache with
    entries := cache.entries.insert key { blocked, lastUse := cache.clock }
    order
    clock := cache.clock + 1
    order_iff := by
      intro time other
      simp only [order, Std.TreeMap.getElem?_insert, Nat.compare_eq_eq,
        Std.HashMap.getElem?_insert, beq_iff_eq]
      by_cases htime : cache.clock = time
      · subst htime
        rw [if_pos rfl, Option.some_inj]
        by_cases hkey : key = other
        · simp [hkey]
        · simp [hkey, cache.lastUse_ne_clock other]
      · rw [if_neg htime, getElem?_orderWithout, cache.order_iff]
        by_cases hkey : key = other
        · simp [hkey, htime]
        · simp [hkey]
    lastUse_lt := by
      intro other entry h
      rw [Std.HashMap.getElem?_insert] at h
      split at h
      · cases h
        exact Nat.lt_succ_self _
      · exact Nat.lt_succ_of_lt (cache.lastUse_lt other entry h) }

def remove (cache : ResultCache) (key : Key) : ResultCache :=
  let order := cache.orderWithout key
  { cache with
    entries := cache.entries.erase key
    order
    order_iff := by
      intro time other
      simp only [order, getElem?_orderWithout, cache.order_iff, Std.HashMap.getElem?_erase,
        beq_iff_eq]
      split
      · next hkey => simp [hkey]
      · next hkey => simp [hkey]
    lastUse_lt := by
      intro other entry h
      rw [Std.HashMap.getElem?_erase] at h
      split at h
      · cases h
      · exact cache.lastUse_lt other entry h }

/-- What is remembered for a key. To find an entry is to use it. -/
def get? (cache : ResultCache) (key : Key) : Option Bool × ResultCache :=
  match cache.entries[key]? with
  | some entry => (some entry.blocked, cache.use key entry.blocked)
  | none => (none, cache)

/-! ## Making room -/

def oldest? (cache : ResultCache) : Option Key :=
  cache.order.minKey?.bind (cache.order[·]?)

def dropOldest (cache : ResultCache) : (n : Nat) → ResultCache
  | 0 => cache
  | n + 1 =>
    match cache.oldest? with
    | some key => (cache.remove key).dropOldest n
    | none => cache

def evict (cache : ResultCache) : ResultCache :=
  cache.dropOldest cache.batch

/-- Remembers a result, and makes room if the key is new and the cache over its capacity. -/
def set (cache : ResultCache) (key : Key) (blocked : Bool) : ResultCache :=
  let isHeld := cache.entries.contains key
  let used := cache.use key blocked
  if !isHeld && used.capacity < used.size then used.evict else used

/-! ## What is held -/

/-- What is remembered for a key, without using it. -/
def held? (cache : ResultCache) (key : Key) : Option Bool :=
  cache.entries[key]?.map (·.blocked)

theorem held?_use (cache : ResultCache) (key other : Key) (blocked : Bool) :
    (cache.use key blocked).held? other =
      if key = other then some blocked else cache.held? other := by
  simp only [use, held?, Std.HashMap.getElem?_insert, beq_iff_eq]
  split <;> rfl

theorem get?_eq_held? (cache : ResultCache) (key : Key) :
    (cache.get? key).1 = cache.held? key := by
  unfold get? held?
  split <;> simp_all

theorem held?_get? (cache : ResultCache) (key other : Key) :
    (cache.get? key).2.held? other = cache.held? other := by
  unfold get?
  split
  · rename_i entry h
    rw [held?_use]
    split
    · rename_i hk
      subst hk
      simp [held?, h]
    · rfl
  · rfl

theorem held?_remove (cache : ResultCache) (key other : Key) :
    (cache.remove key).held? other = if key = other then none else cache.held? other := by
  simp only [remove, held?, Std.HashMap.getElem?_erase, beq_iff_eq]
  split <;> rfl

theorem held?_of_held?_dropOldest {cache : ResultCache} {n : Nat} {key : Key} {blocked : Bool}
    (h : (cache.dropOldest n).held? key = some blocked) : cache.held? key = some blocked := by
  induction n generalizing cache with
  | zero => exact h
  | succ n ih =>
    rw [dropOldest] at h
    split at h
    · have hrest := ih h
      rw [held?_remove] at hrest
      split at hrest
      · cases hrest
      · exact hrest
    · exact h

theorem held?_of_held?_evict {cache : ResultCache} {key : Key} {blocked : Bool}
    (h : cache.evict.held? key = some blocked) : cache.held? key = some blocked :=
  held?_of_held?_dropOldest h

instance : ToString ResultCache where
  toString cache :=
    "ResultCache \x7b capacity: " ++ toString cache.capacity ++ ", len: " ++ toString cache.size ++
      " \x7d"

end ResultCache

end AdFilter
