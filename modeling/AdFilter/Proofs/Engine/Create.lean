import AdFilter.Engine
import AdFilter.Proofs.ResultCache

/-!
# Making an engine

An engine is made for every capacity but zero. It starts with nothing remembered, and with the rules
of the index as they were.
-/

namespace AdFilter.Engine

theorem exists_create (index : RuleIndex) (config : Config) (h : 0 < config.cacheCapacity) :
    ∃ engine, create index config = .ok engine := by
  unfold create ResultCache.empty?
  rw [dif_pos h]
  exact ⟨_, rfl⟩

section
variable {index : RuleIndex} {config : Config} {engine : Engine}

theorem exists_cache_of_create (h : create index config = .ok engine) :
    ∃ cache, ResultCache.empty? config.cacheCapacity = some cache ∧
      engine = { index := index.finalizeHides config.mergeByScope, cache, config } := by
  unfold create at h
  split at h
  · next cache hcache =>
    cases h
    exact ⟨cache, hcache, rfl⟩
  · cases h

theorem evaluate_of_create (h : create index config = .ok engine) (source request : String) :
    engine.evaluate source request = index.evaluate config.constraintMode source request := by
  obtain ⟨cache, -, rfl⟩ := exists_cache_of_create h
  rfl

theorem block_of_create (h : create index config = .ok engine) :
    engine.index.block = index.block := by
  obtain ⟨cache, -, rfl⟩ := exists_cache_of_create h
  rfl

theorem hides_of_create (h : create index config = .ok engine) :
    engine.index.hides = index.hides.finalize config.mergeByScope := by
  obtain ⟨cache, -, rfl⟩ := exists_cache_of_create h
  rfl

theorem held?_of_create (h : create index config = .ok engine) (key : ResultCache.Key) :
    engine.cache.held? key = none := by
  obtain ⟨cache, hcache, rfl⟩ := exists_cache_of_create h
  exact ResultCache.held?_of_empty? hcache key

theorem capacity_of_create (h : create index config = .ok engine) :
    engine.cache.capacity = config.cacheCapacity := by
  obtain ⟨cache, hcache, rfl⟩ := exists_cache_of_create h
  exact ResultCache.capacity_of_empty? hcache

end

end AdFilter.Engine
