import AdFilter.Proofs.Engine.Create
import AdFilter.Proofs.FilterList

/-!
# The cache does not change verdicts

An engine is used by calls. The invariant of all runs is that the cache remembers the results of the
rules (`Remembers`): a call writes nothing but such a result, and what else happens to the cache only
drops entries or renews them. So the reply to a call depends on the rules, and on the calls before it
only in so far as a remembered result no longer names its rule.
-/

namespace AdFilter.Engine

inductive Call where
  /-- the answer to a request -/
  | verdict (source request : String)
  /-- only whether the request is blocked -/
  | isBlocked (source request : String)
  /-- the verdict of the rules, without the cache -/
  | evaluate (source request : String)
  /-- the entry of the cache -/
  | cached (source request : String)

inductive Reply where
  | verdict (v : Verdict)
  | isBlocked (blocked : Bool)
  | cached (blocked : Option Bool)

/-- Carries out a call: the reply to it, and the engine after it. -/
def call (e : Engine) : Call → Reply × Engine
  | .verdict source request =>
    let decision := e.answer source request
    (.verdict decision.verdict, decision.engine)
  | .isBlocked source request =>
    let decision := e.answer source request
    (.isBlocked decision.verdict.isBlocked, decision.engine)
  | .evaluate source request => (.verdict (e.evaluate source request), e)
  | .cached source request =>
    let (blocked, cache) := e.cache.get? ⟨source, request⟩
    (.cached blocked, { e with cache })

def afterCalls (e : Engine) (calls : List Call) : Engine :=
  calls.foldl (fun e c => (e.call c).2) e

/-- Every entry of the cache is the result that the rules give. -/
def Remembers (e : Engine) : Prop :=
  ∀ source request blocked, e.cache.held? ⟨source, request⟩ = some blocked →
    blocked = (e.evaluate source request).isBlocked

/-! ## One call -/

section
variable {e : Engine} {source request : String}

theorem answer_of_held {blocked : Bool} (h : e.cache.held? ⟨source, request⟩ = some blocked) :
    e.answer source request =
      { verdict := remembered blocked
        cached := true
        engine := { e with cache := (e.cache.get? ⟨source, request⟩).2 } } := by
  rw [← ResultCache.get?_eq_held?] at h
  obtain ⟨index, cache, config⟩ := e
  rw [answer]
  split
  · next heq =>
    rw [heq] at h ⊢
    cases h
    rfl
  · next heq =>
    rw [heq] at h
    cases h

theorem answer_of_not_held (h : e.cache.held? ⟨source, request⟩ = none) :
    e.answer source request =
      { verdict := e.evaluate source request
        cached := false
        engine := { e with
          cache := (e.cache.get? ⟨source, request⟩).2.set ⟨source, request⟩
            (e.evaluate source request).isBlocked } } := by
  rw [← ResultCache.get?_eq_held?] at h
  obtain ⟨index, cache, config⟩ := e
  rw [answer]
  split
  · next heq =>
    rw [heq] at h
    cases h
  · next heq =>
    rw [heq]
    rfl

theorem call_index_config (e : Engine) (c : Call) :
    (e.call c).2.index = e.index ∧ (e.call c).2.config = e.config := by
  have hanswer : ∀ source request, (e.answer source request).engine.index = e.index ∧
      (e.answer source request).engine.config = e.config := by
    intro source request
    cases h : e.cache.held? ⟨source, request⟩ with
    | none => rw [answer_of_not_held h]; exact ⟨rfl, rfl⟩
    | some blocked => rw [answer_of_held h]; exact ⟨rfl, rfl⟩
  cases c with
  | verdict source request => exact hanswer source request
  | isBlocked source request => exact hanswer source request
  | evaluate source request => exact ⟨rfl, rfl⟩
  | cached source request => exact ⟨rfl, rfl⟩

theorem evaluate_call (e : Engine) (c : Call) (source request : String) :
    (e.call c).2.evaluate source request = e.evaluate source request := by
  obtain ⟨hindex, hconfig⟩ := call_index_config e c
  unfold evaluate
  rw [hindex, hconfig]

theorem Remembers.get? (h : e.Remembers) (key : ResultCache.Key) :
    Remembers { e with cache := (e.cache.get? key).2 } := by
  intro source request blocked hheld
  rw [ResultCache.held?_get?] at hheld
  exact h source request blocked hheld

theorem Remembers.set (h : e.Remembers) (source request : String) :
    Remembers { e with
      cache := e.cache.set ⟨source, request⟩ (e.evaluate source request).isBlocked } := by
  intro source' request' blocked hheld
  rcases ResultCache.of_held?_set hheld with ⟨hkey, rfl⟩ | hheld
  · cases hkey
    rfl
  · exact h source' request' blocked hheld

theorem Remembers.answer (h : e.Remembers) (source request : String) :
    (e.answer source request).engine.Remembers := by
  cases hheld : e.cache.held? ⟨source, request⟩ with
  | none =>
    rw [answer_of_not_held hheld]
    exact (h.get? ⟨source, request⟩).set source request
  | some blocked =>
    rw [answer_of_held hheld]
    exact h.get? ⟨source, request⟩

theorem Remembers.call (h : e.Remembers) (c : Call) : (e.call c).2.Remembers := by
  cases c with
  | verdict source request => exact h.answer source request
  | isBlocked source request => exact h.answer source request
  | evaluate source request => exact h
  | cached source request => exact h.get? ⟨source, request⟩

/-! ## Runs -/

theorem Remembers.afterCalls (h : e.Remembers) (calls : List Call) :
    (e.afterCalls calls).Remembers := by
  induction calls generalizing e with
  | nil => exact h
  | cons c calls ih => exact ih (h.call c)

theorem evaluate_afterCalls (e : Engine) (calls : List Call) (source request : String) :
    (e.afterCalls calls).evaluate source request = e.evaluate source request := by
  induction calls generalizing e with
  | nil => rfl
  | cons c calls ih => exact (ih (e.call c).2).trans (evaluate_call e c source request)

/-- An answer blocks exactly if the rules do, whether the cache gives it or not. -/
theorem Remembers.isBlocked_answer (h : e.Remembers) (source request : String) :
    (e.answer source request).verdict.isBlocked = (e.evaluate source request).isBlocked := by
  cases hheld : e.cache.held? ⟨source, request⟩ with
  | none => rw [answer_of_not_held hheld]
  | some blocked =>
    rw [answer_of_held hheld, ← h source request blocked hheld]
    cases blocked <;> rfl

end

theorem remembers_of_create {index : RuleIndex} {config : Config} {engine : Engine}
    (h : create index config = .ok engine) : engine.Remembers := by
  intro source request blocked hheld
  rw [held?_of_create h] at hheld
  cases hheld

/-- Whatever calls came before, an engine answers as its rules do. Only an answer from the cache does
not name the rule, and does not tell an exception from a request that no rule blocks. -/
theorem call_afterCalls (index : RuleIndex) (config : Config) (h : 0 < config.cacheCapacity) :
    ∃ engine, create index config = .ok engine ∧
      ∀ (calls : List Call) (source request : String),
        let e := engine.afterCalls calls
        let verdict := index.evaluate config.constraintMode source request
        (e.cache.held? ⟨source, request⟩ = none →
          (e.call (.verdict source request)).1 = .verdict verdict) ∧
        (e.cache.held? ⟨source, request⟩ ≠ none →
          (e.call (.verdict source request)).1 =
            .verdict (if verdict.isBlocked then .blocked none else .allowed)) ∧
        (e.call (.isBlocked source request)).1 = .isBlocked verdict.isBlocked ∧
        (e.call (.evaluate source request)).1 = .verdict verdict ∧
        (∀ blocked, (e.call (.cached source request)).1 = .cached (some blocked) →
          blocked = verdict.isBlocked) := by
  obtain ⟨engine, hcreate⟩ := exists_create index config h
  refine ⟨engine, hcreate, ?_⟩
  intro calls source request e verdict
  have hremembers : e.Remembers := (remembers_of_create hcreate).afterCalls calls
  have hevaluate : e.evaluate source request = verdict :=
    (evaluate_afterCalls engine calls source request).trans
      (evaluate_of_create hcreate source request)
  refine ⟨fun hnone => ?_, fun hsome => ?_, ?_, ?_, fun blocked hcached => ?_⟩
  · rw [call, answer_of_not_held hnone, hevaluate]
  · obtain ⟨blocked, hheld⟩ := Option.ne_none_iff_exists'.1 hsome
    have hblocked := hremembers source request blocked hheld
    rw [call, answer_of_held hheld, hblocked, hevaluate, remembered]
  · rw [call, hremembers.isBlocked_answer, hevaluate]
  · rw [call, hevaluate]
  · unfold call at hcached
    have hget : (e.cache.get? ⟨source, request⟩).1 = some blocked := by simpa using hcached
    rw [ResultCache.get?_eq_held?] at hget
    rw [hremembers source request blocked hget, hevaluate]

/-- A request that was decided, pushed out of a cache with room for one, and asked about again. -/
theorem call_afterCalls_evicted :
    ∃ engine, create (FilterList.Loading.lines { index := {} } ["/ad*".toList]).index
        { cacheCapacity := 1 } = .ok engine ∧
      ((engine.afterCalls [.verdict "site.test" "http://x.test/ad/1",
          .verdict "site.test" "http://x.test/"]).call
        (.isBlocked "site.test" "http://x.test/ad/1")).1 = .isBlocked true := by
  have hblocked : ((FilterList.Loading.lines { index := {} } ["/ad*".toList]).index.evaluate
      .exact "site.test" "http://x.test/ad/1").isBlocked = true := by
    decide +kernel
  obtain ⟨engine, hcreate, hcall⟩ := call_afterCalls
    (FilterList.Loading.lines { index := {} } ["/ad*".toList]).index
    { cacheCapacity := 1 } (by decide)
  refine ⟨engine, hcreate, ?_⟩
  rw [(hcall _ _ _).2.2.1, hblocked]

end AdFilter.Engine
