import AdFilter.Proofs.Engine.Cache
import AdFilter.Proofs.ResultCache.Recency
import AdFilter.Proofs.Stats
import Mathlib.Data.Finset.Card

/-!
# The statistics of a run

A run is told by its decisions, one for each call that asks for one, and the events of these are what
the statistics count. How often the cache cannot help follows from two facts about its keys: what it
holds was held at the start or was missed before (`held_or_mem_missed`), and while there is room it
holds all that was asked for (`HoldsJust`), so that nothing is missed twice.
-/

namespace AdFilter

namespace ResultCache

variable {cache : ResultCache} {keys : Finset Key}

theorem size_le_card (h : ∀ key ∈ cache.entries, key ∈ keys) : cache.size ≤ keys.card := by
  rw [size, ← Std.HashMap.length_keys, ← List.toFinset_card_of_nodup Std.HashMap.nodup_keys]
  refine Finset.card_le_card fun key hkey => h key ?_
  rwa [List.mem_toFinset, Std.HashMap.mem_keys] at hkey

/-- Nothing is dropped while there is room for all keys that there are. -/
theorem held?_set_of_card_le (h : ∀ key ∈ cache.entries, key ∈ keys) {key : Key}
    (hroom : (insert key keys).card ≤ cache.capacity) (blocked : Bool) (other : Key) :
    (cache.set key blocked).held? other =
      if key = other then some blocked else cache.held? other := by
  have hsize : (cache.use key blocked).size ≤ cache.capacity := by
    refine Nat.le_trans (size_le_card fun other hother => ?_) hroom
    rcases mem_entries_use.1 hother with rfl | hother
    · exact Finset.mem_insert_self key keys
    · exact Finset.mem_insert_of_mem (h other hother)
  rw [set_eq_use hsize, held?_use]

end ResultCache

namespace Engine

open ResultCache (Key)

/-- The request that a call asks to decide. -/
def Call.asked? : Call → Option Key
  | .verdict source request | .isBlocked source request => some ⟨source, request⟩
  | .evaluate _ _ | .cached _ _ => none

/-- A call, and the nanoseconds that it takes. -/
abbrev TimedCall := Call × Nat

def asked (calls : List TimedCall) : List Key :=
  calls.filterMap (·.1.asked?)

/-- A decision, the request that it is about, the nanoseconds that it took, and the reply to the call
that asked for it. -/
structure Decided extends Decision where
  key : Key
  elapsed : Nat
  reply : Reply

/-- What becomes of a call that asks to decide a request. -/
def decided (e : Engine) (c : Call) (elapsed : Nat) (key : Key) : Decided :=
  { e.answer key.source key.request with key, elapsed, reply := (e.call c).1 }

def decisions (e : Engine) : List TimedCall → List Decided
  | [] => []
  | (c, elapsed) :: calls =>
    (c.asked?.map (e.decided c elapsed)).toList ++ (e.call c).2.decisions calls

def eventsOf (decisions : List Decided) : List Event :=
  decisions.flatMap fun d => d.events d.elapsed

/-- The requests that the cache could not answer. -/
def missed (decisions : List Decided) : List Key :=
  (decisions.filter (!·.cached)).map (·.key)

def missedBy (e : Engine) (c : Call) : List Key :=
  (c.asked?.filter fun key => (e.cache.held? key).isNone).toList

/-! ## One call -/

section
variable {e : Engine} {c : Call} {key : Key} {keys : Finset Key}

theorem engine_call_of_asked (h : c.asked? = some key) :
    (e.call c).2 = (e.answer key.source key.request).engine := by
  cases c <;> cases h <;> rfl

theorem held?_call_of_not_asked (h : c.asked? = none) (other : Key) :
    (e.call c).2.cache.held? other = e.cache.held? other := by
  cases c with
  | verdict source request => cases h
  | isBlocked source request => cases h
  | evaluate source request => rfl
  | cached source request => exact ResultCache.held?_get? e.cache ⟨source, request⟩ other

theorem capacity_call (e : Engine) (c : Call) : (e.call c).2.cache.capacity = e.cache.capacity := by
  have hget : ∀ key, (e.cache.get? key).2.capacity = e.cache.capacity := fun key =>
    ResultCache.capacity_call e.cache (.get key)
  have hanswer : ∀ source request,
      (e.answer source request).engine.cache.capacity = e.cache.capacity := by
    intro source request
    cases hheld : e.cache.held? ⟨source, request⟩ with
    | none =>
      rw [answer_of_not_held hheld]
      exact (ResultCache.capacity_set _ _ _).trans (hget _)
    | some blocked =>
      rw [answer_of_held hheld]
      exact hget _
  cases c with
  | verdict source request => exact hanswer source request
  | isBlocked source request => exact hanswer source request
  | evaluate source request => rfl
  | cached source request => exact hget ⟨source, request⟩

theorem held?_or_asked_of_held?_call {other : Key} (h : (e.call c).2.cache.held? other ≠ none) :
    e.cache.held? other ≠ none ∨ c.asked? = some other := by
  cases hasked : c.asked? with
  | none =>
    rw [held?_call_of_not_asked hasked] at h
    exact .inl h
  | some key =>
    rw [engine_call_of_asked hasked] at h
    cases hheld : e.cache.held? ⟨key.source, key.request⟩ with
    | some blocked =>
      rw [answer_of_held hheld, ResultCache.held?_get?] at h
      exact .inl h
    | none =>
      rw [answer_of_not_held hheld] at h
      obtain ⟨b, hb⟩ := Option.ne_none_iff_exists'.1 h
      rcases ResultCache.of_held?_set hb with ⟨rfl, -⟩ | hb
      · exact .inr rfl
      · rw [ResultCache.held?_get?] at hb
        exact .inl (by simp [hb])

theorem cached_decided (e : Engine) (c : Call) (elapsed : Nat) (key : Key) :
    (e.decided c elapsed key).cached = (e.cache.held? key).isSome := by
  unfold decided
  cases hheld : e.cache.held? ⟨key.source, key.request⟩ with
  | none => rw [answer_of_not_held hheld, Option.isSome_none]
  | some blocked => rw [answer_of_held hheld, Option.isSome_some]

@[simp]
theorem key_decided (e : Engine) (c : Call) (elapsed : Nat) (key : Key) :
    (e.decided c elapsed key).key = key :=
  rfl

theorem reply_decided (e : Engine) (elapsed : Nat) (h : c.asked? = some key) :
    let d := e.decided c elapsed key
    d.reply = .verdict d.verdict ∨ d.reply = .isBlocked d.verdict.isBlocked := by
  cases c with
  | verdict source request => cases h; exact .inl rfl
  | isBlocked source request => cases h; exact .inr rfl
  | evaluate source request => cases h
  | cached source request => cases h

theorem missedBy_of_not_asked (h : c.asked? = none) : e.missedBy c = [] := by
  rw [missedBy, h]
  rfl

theorem missedBy_of_held (h : c.asked? = some key) (hheld : e.cache.held? key ≠ none) :
    e.missedBy c = [] := by
  simp [missedBy, h, Option.filter, hheld]

theorem missedBy_of_not_held (h : c.asked? = some key) (hheld : e.cache.held? key = none) :
    e.missedBy c = [key] := by
  simp [missedBy, h, Option.filter, hheld]

/-- A decision names an exception exactly if the cache did not help and the rules name it. -/
theorem decided_excepted_iff (e : Engine) (c : Call) (elapsed : Nat) (key : Key) (x : Rule) :
    (e.decided c elapsed key).verdict = .excepted x ↔
      (e.decided c elapsed key).cached = false ∧
        e.evaluate key.source key.request = .excepted x := by
  unfold decided
  cases hheld : e.cache.held? ⟨key.source, key.request⟩ with
  | none =>
    rw [answer_of_not_held hheld]
    exact (and_iff_right rfl).symm
  | some blocked =>
    rw [answer_of_held hheld]
    cases blocked <;> simp [remembered]

/-- The cache holds results for these requests, and for no others. -/
def HoldsJust (e : Engine) (keys : Finset Key) : Prop :=
  ∀ key, e.cache.held? key ≠ none ↔ key ∈ keys

theorem HoldsJust.of_not_asked (h : e.HoldsJust keys) (hasked : c.asked? = none) :
    (e.call c).2.HoldsJust keys := by
  intro other
  rw [held?_call_of_not_asked hasked]
  exact h other

/-- While there is room, the cache holds what it held and what is asked for. -/
theorem HoldsJust.of_asked (h : e.HoldsJust keys) (hasked : c.asked? = some key)
    (hroom : (insert key keys).card ≤ e.cache.capacity) :
    (e.call c).2.HoldsJust (insert key keys) := by
  rw [engine_call_of_asked hasked]
  intro other
  rw [Finset.mem_insert, ← h other]
  cases hheld : e.cache.held? ⟨key.source, key.request⟩ with
  | some blocked =>
    rw [answer_of_held hheld, ResultCache.held?_get?]
    refine (or_iff_right_of_imp ?_).symm
    rintro rfl
    simp [hheld]
  | none =>
    have hkeys : ∀ other ∈ (e.cache.get? key).2.entries, other ∈ keys := by
      intro other hother
      rw [← h other, ← ResultCache.held?_get? e.cache key]
      exact ResultCache.held?_ne_none_iff.2 hother
    have hcapacity : (e.cache.get? key).2.capacity = e.cache.capacity :=
      ResultCache.capacity_call e.cache (.get key)
    rw [answer_of_not_held hheld]
    show (((e.cache.get? key).2.set key _).held? other ≠ none) ↔ _
    rw [ResultCache.held?_set_of_card_le hkeys (hcapacity ▸ hroom), ResultCache.held?_get?]
    by_cases hother : key = other
    · simp [hother]
    · simp [hother, Ne.symm hother]

/-! ## Runs -/

variable {calls : List TimedCall}

theorem decisions_cons (e : Engine) (c : Call) (elapsed : Nat) (calls : List TimedCall) :
    e.decisions ((c, elapsed) :: calls) =
      (c.asked?.map (e.decided c elapsed)).toList ++ (e.call c).2.decisions calls :=
  rfl

theorem asked_cons (c : Call) (elapsed : Nat) (calls : List TimedCall) :
    asked ((c, elapsed) :: calls) = c.asked?.toList ++ asked calls := by
  unfold asked
  rw [List.filterMap_cons]
  cases c.asked? <;> rfl

theorem map_key_decisions (e : Engine) (calls : List TimedCall) :
    (e.decisions calls).map (·.key) = asked calls := by
  induction calls generalizing e with
  | nil => rfl
  | cons call calls ih =>
    obtain ⟨c, elapsed⟩ := call
    rw [decisions_cons, asked_cons, List.map_append, ih]
    cases c.asked? <;> rfl

theorem exists_of_mem_decisions {d : Decided} (h : d ∈ e.decisions calls) :
    ∃ (e' : Engine) (c : Call) (elapsed : Nat) (key : Key), e'.evaluate = e.evaluate ∧
      c.asked? = some key ∧ d = e'.decided c elapsed key := by
  induction calls generalizing e with
  | nil => cases h
  | cons call calls ih =>
    obtain ⟨c, elapsed⟩ := call
    rw [decisions_cons, List.mem_append] at h
    rcases h with h | h
    · rw [Option.mem_toList, Option.map_eq_some_iff] at h
      obtain ⟨key, hasked, rfl⟩ := h
      exact ⟨e, c, elapsed, key, rfl, hasked, rfl⟩
    · obtain ⟨e', c', elapsed', key, hevaluate, hd⟩ := ih h
      refine ⟨e', c', elapsed', key, hevaluate.trans ?_, hd⟩
      funext source request
      exact evaluate_call e c source request

theorem missed_decisions_cons (e : Engine) (c : Call) (elapsed : Nat) (calls : List TimedCall) :
    missed (e.decisions ((c, elapsed) :: calls)) =
      e.missedBy c ++ missed ((e.call c).2.decisions calls) := by
  rw [decisions_cons, missed, List.filter_append, List.map_append]
  congr 1
  cases hasked : c.asked? with
  | none => rw [missedBy_of_not_asked hasked]; rfl
  | some key =>
    have hcached := cached_decided e c elapsed key
    cases hheld : e.cache.held? key with
    | none =>
      rw [missedBy_of_not_held hasked hheld]
      simp [hcached, hheld]
    | some blocked =>
      rw [missedBy_of_held hasked (by simp [hheld])]
      simp [hcached, hheld]

/-- What is asked for was held before, or is missed at some time. -/
theorem held_or_mem_missed (h : key ∈ asked calls) :
    e.cache.held? key ≠ none ∨ key ∈ missed (e.decisions calls) := by
  induction calls generalizing e with
  | nil => cases h
  | cons call calls ih =>
    obtain ⟨c, elapsed⟩ := call
    have hnow : c.asked? = some key → e.cache.held? key ≠ none ∨ key ∈ e.missedBy c := by
      intro hasked
      refine (Classical.em (e.cache.held? key = none)).symm.imp_right fun hheld => ?_
      rw [missedBy_of_not_held hasked hheld]
      exact List.mem_singleton_self key
    rw [missed_decisions_cons, List.mem_append]
    rw [asked_cons, List.mem_append, Option.mem_toList] at h
    rcases h with h | h
    · exact (hnow h).imp_right .inl
    · rcases ih (e := (e.call c).2) h with hheld | hmissed
      · rcases held?_or_asked_of_held?_call hheld with hheld | hasked
        · exact .inl hheld
        · exact (hnow hasked).imp_right .inl
      · exact .inr (.inr hmissed)

/-- While there is room for all requests, none is missed twice. -/
theorem HoldsJust.nodup_missed (h : e.HoldsJust keys)
    (hroom : (keys ∪ (asked calls).toFinset).card ≤ e.cache.capacity) :
    (missed (e.decisions calls)).Nodup ∧ ∀ key ∈ missed (e.decisions calls), key ∉ keys := by
  induction calls generalizing e keys with
  | nil => exact ⟨List.nodup_nil, nofun⟩
  | cons call calls ih =>
    obtain ⟨c, elapsed⟩ := call
    rw [asked_cons] at hroom
    rw [missed_decisions_cons]
    cases hasked : c.asked? with
    | none =>
      rw [hasked] at hroom
      rw [missedBy_of_not_asked hasked]
      exact ih (h.of_not_asked hasked) (by rwa [capacity_call])
    | some key =>
      rw [hasked, Option.toList_some, List.singleton_append, List.toFinset_cons,
        Finset.union_insert, ← Finset.insert_union] at hroom
      have hinsert := Nat.le_trans (Finset.card_le_card Finset.subset_union_left) hroom
      -- what is missed from here on is none of the keys that are held now
      obtain ⟨hnodup, hnew⟩ := ih (h.of_asked hasked hinsert) (by rwa [capacity_call])
      have hothers : ∀ other ∈ missed ((e.call c).2.decisions calls), other ∉ keys :=
        fun other hother hmem => hnew other hother (Finset.mem_insert_of_mem hmem)
      by_cases hheld : e.cache.held? key = none
      · rw [missedBy_of_not_held hasked hheld]
        refine ⟨List.nodup_cons.2 ⟨fun hmem => ?_, hnodup⟩, ?_⟩
        · exact hnew key hmem (Finset.mem_insert_self key keys)
        · exact List.forall_mem_cons.2 ⟨fun hmem => (h key).2 hmem hheld, hothers⟩
      · rw [missedBy_of_held hasked hheld]
        exact ⟨hnodup, hothers⟩

/-! ## Counting -/

/-- Each decision tells one thing at most of each kind. -/
theorem countP_eventsOf {p : Event → Bool} {q : Decided → Bool}
    (h : ∀ d : Decided, (d.events d.elapsed).countP p = if q d then 1 else 0) (ds : List Decided) :
    (eventsOf ds).countP p = ds.countP q := by
  induction ds with
  | nil => rfl
  | cons d ds ih =>
    have hcons : eventsOf (d :: ds) = d.events d.elapsed ++ eventsOf ds := rfl
    rw [hcons, List.countP_append, h, ih, List.countP_cons, Nat.add_comm]

theorem countP_isHit_eventsOf (ds : List Decided) :
    (eventsOf ds).countP Event.isHit = ds.countP (·.cached) := by
  refine countP_eventsOf (fun d => ?_) ds
  cases hcached : d.cached <;> simp [Decision.events, hcached, Event.isHit, List.countP_cons]

theorem countP_isMiss_eventsOf (ds : List Decided) :
    (eventsOf ds).countP Event.isMiss = (missed ds).length := by
  rw [missed, List.length_map, ← List.countP_eq_length_filter]
  refine countP_eventsOf (fun d => ?_) ds
  cases hcached : d.cached <;> simp [Decision.events, hcached, Event.isMiss, List.countP_cons]

theorem countP_isVerdict_eventsOf (kind : Verdict → Bool) (ds : List Decided) :
    (eventsOf ds).countP (Event.isVerdict kind) = ds.countP (kind ·.verdict) := by
  refine countP_eventsOf (fun d => ?_) ds
  cases hcached : d.cached <;> cases hkind : kind d.verdict <;>
    simp [Decision.events, hcached, hkind, Event.isVerdict]

theorem countP_cached_add_length_missed (ds : List Decided) :
    ds.countP (·.cached) + (missed ds).length = ds.length := by
  rw [missed, List.length_map, ← List.countP_eq_length_filter]
  simpa using (List.length_eq_countP_add_countP (·.cached) (l := ds)).symm

/-- What was asked for is missed once at least, and once only as long as there is room for it all. -/
theorem card_asked_le (h : e.HoldsJust ∅) (calls : List TimedCall) :
    (asked calls).toFinset.card ≤ (missed (e.decisions calls)).length ∧
      ((asked calls).toFinset.card ≤ e.cache.capacity →
        (missed (e.decisions calls)).length = (asked calls).toFinset.card) := by
  have hle : (asked calls).toFinset.card ≤ (missed (e.decisions calls)).length := by
    refine Nat.le_trans (Finset.card_le_card fun key hkey => ?_) (List.toFinset_card_le _)
    rw [List.mem_toFinset] at hkey ⊢
    refine (held_or_mem_missed hkey).resolve_left fun hheld => ?_
    exact absurd ((h key).1 hheld) (Finset.notMem_empty key)
  refine ⟨hle, fun hroom => Nat.le_antisymm ?_ hle⟩
  obtain ⟨hnodup, -⟩ := h.nodup_missed (by rwa [Finset.empty_union])
  rw [← List.toFinset_card_of_nodup hnodup]
  refine Finset.card_le_card fun key hkey => ?_
  rw [List.mem_toFinset] at hkey ⊢
  rw [← map_key_decisions e calls]
  exact (List.filter_sublist.map _).subset hkey

end

/-- What the statistics say of a run in which these requests are asked for and decided. -/
structure Counts (index : RuleIndex) (config : Config) (requests : List Key) (ds : List Decided)
    (s : Stats.Snapshot) : Prop where
  /-- there is one decision for each request, in their order -/
  decided : ds.map (·.key) = requests
  replies : ∀ d ∈ ds, d.reply = .verdict d.verdict ∨ d.reply = .isBlocked d.verdict.isBlocked
  total : s.cacheHits.toNat + s.cacheMisses.toNat = requests.length
  filtered : s.filtered.toNat = ds.countP (·.verdict.isBlocked)
  exceptions : s.exceptions.toNat = ds.countP (·.verdict.isExcepted)
  excepted : ∀ d ∈ ds, ∀ x, d.verdict = .excepted x ↔ d.cached = false ∧
    index.evaluate config.constraintMode d.key.source d.key.request = .excepted x
  distinct_le : requests.toFinset.card ≤ s.cacheMisses.toNat
  eq_distinct : requests.toFinset.card ≤ config.cacheCapacity →
    s.cacheMisses.toNat = requests.toFinset.card

/-- The statistics of any run, from the start of the engine on, as long as words can count its
requests. Besides the calls that ask for a decision there may be any others. -/
theorem statistics_of_create (index : RuleIndex) (config : Config) (h : 0 < config.cacheCapacity) :
    ∃ engine, create index config = .ok engine ∧
      ∀ calls : List TimedCall, (asked calls).length < UInt64.size →
        Counts index config (asked calls) (engine.decisions calls)
          (({} : Stats).recordAll (eventsOf (engine.decisions calls))).snapshot := by
  obtain ⟨engine, hcreate⟩ := exists_create index config h
  refine ⟨engine, hcreate, fun calls hlength => ?_⟩
  have hstart : engine.HoldsJust ∅ := by
    intro key
    simp [held?_of_create hcreate]
  obtain ⟨hle, heq⟩ := card_asked_le hstart calls
  rw [capacity_of_create hcreate] at heq
  have hasked := map_key_decisions engine calls
  have hcount := countP_cached_add_length_missed (engine.decisions calls)
  have hdecisions : (engine.decisions calls).length = (asked calls).length := by
    rw [← hasked, List.length_map]
  -- every counter is at most the number of decisions, so that it fits
  have hword : ∀ n ≤ (engine.decisions calls).length, (UInt64.ofNat n).toNat = n := fun n hn =>
    UInt64.toNat_ofNat_of_lt' (Nat.lt_of_le_of_lt (hdecisions ▸ hn) hlength)
  have hhits := hword _ (Nat.le.intro hcount)
  have hmisses := hword (missed (engine.decisions calls)).length (by omega)
  rw [Stats.recordAll_eq_ofEvents]
  simp only [Stats.snapshot_eq, Stats.ofEvents, countP_isHit_eventsOf, countP_isMiss_eventsOf,
    countP_isVerdict_eventsOf]
  constructor
  case decided => exact hasked
  case total => rw [hhits, hmisses, hcount, hdecisions]
  case filtered => exact hword _ List.countP_le_length
  case exceptions => exact hword _ List.countP_le_length
  case replies =>
    intro d hd
    obtain ⟨e, c, elapsed, key, -, hasked, rfl⟩ := exists_of_mem_decisions hd
    exact reply_decided e elapsed hasked
  case excepted =>
    intro d hd x
    obtain ⟨e, c, elapsed, key, hevaluate, -, rfl⟩ := exists_of_mem_decisions hd
    rw [decided_excepted_iff, hevaluate, evaluate_of_create hcreate, key_decided]
  case distinct_le => rwa [hmisses]
  case eq_distinct => rwa [hmisses]

/-- An exception that is asked for twice, and another request that there is room for. -/
theorem statistics_of_create_exception :
    let index := (FilterList.load {} "/ad*\n@@/ad/ok").index
    let calls : List TimedCall := [
      (.verdict "site.test" "http://x.test/ad/ok", 50),
      (.isBlocked "site.test" "http://x.test/ad/ok", 10),
      (.isBlocked "site.test" "http://x.test/ad/1", 70)]
    ∃ engine, create index { cacheCapacity := 2 } = .ok engine ∧
      let s := (({} : Stats).recordAll (eventsOf (engine.decisions calls))).snapshot
      s.cacheMisses.toNat = 2 ∧ s.cacheHits.toNat = 1 := by
  intro index calls
  obtain ⟨engine, hcreate, hrun⟩ :=
    statistics_of_create index { cacheCapacity := 2 } (by decide)
  have hcounts := hrun calls (by decide)
  have hdistinct : (asked calls).toFinset.card = 2 := by decide
  have hmisses := hcounts.eq_distinct (by rw [hdistinct])
  rw [hdistinct] at hmisses
  have htotal := hcounts.total
  rw [hmisses] at htotal
  exact ⟨engine, hcreate, hmisses, Nat.add_right_cancel htotal⟩

end Engine

end AdFilter
