import AdFilter.Proofs.Engine.Create
import AdFilter.Proofs.FilterList

/-!
# The verdict of an engine

An engine is made from an index that was loaded from lines. Its verdict on a request is told by the
rules of the lines: by which of them are live, and which live one comes first in the order of
candidates.
-/

namespace AdFilter.Engine

open FilterList

/-- The verdict in terms of live rules: one equivalence for each kind of verdict. -/
theorem evaluate_iff_live {lines : List (List Char)} {config : Config} {engine : Engine}
    (h : create (Loading.lines { index := {} } lines).index config = .ok engine)
    (source request : String) :
    let blocking := (FilterLine.rulesOf lines).filter (!·.isException)
    let exceptions := (FilterLine.rulesOf lines).filter (·.isException)
    let live := Rule.IsLive config.constraintMode source request
    (engine.evaluate source request = .allowed ↔ ∀ r ∈ blocking, ¬live r) ∧
    (∀ x, engine.evaluate source request = .excepted x ↔
      (∃ r ∈ blocking, live r) ∧ IsFirst live (candidateOrder exceptions) x) ∧
    (∀ b, engine.evaluate source request = .blocked (some b) ↔
      IsFirst live (candidateOrder blocking) b ∧ ∀ r ∈ exceptions, ¬live r) ∧
    engine.evaluate source request ≠ .blocked none := by
  intro blocking exceptions live
  have hholds := Loading.holds_lines lines
  rw [evaluate_of_create h]
  exact ⟨hholds.evaluate_eq_allowed_iff, fun x => hholds.evaluate_eq_excepted_iff,
    fun b => hholds.evaluate_eq_blocked_iff, RuleIndex.evaluate_ne_blocked_none _⟩

/-- With a blocking rule and an exception that are both live, the exception decides. -/
theorem evaluate_iff_live_two_lines :
    ∃ engine x, create (Loading.lines { index := {} }
        ["/ads/*".toList, "@@/ads/ok^".toList]).index {} = .ok engine ∧
      x.text = "@@/ads/ok^" ∧
      engine.evaluate "http://site.test/" "http://x.test/ads/ok" = .excepted x := by
  have hblocking : ∃ r ∈ (FilterLine.rulesOf ["/ads/*".toList, "@@/ads/ok^".toList]).filter
      (!·.isException), r.IsLive .exact "http://site.test/" "http://x.test/ads/ok" := by
    decide +kernel
  have htext : (candidateOrder ((FilterLine.rulesOf ["/ads/*".toList, "@@/ads/ok^".toList]).filter
      (·.isException))).map (·.text) = ["@@/ads/ok^"] := by
    decide +kernel
  have hlive : ∀ r ∈ candidateOrder ((FilterLine.rulesOf
      ["/ads/*".toList, "@@/ads/ok^".toList]).filter (·.isException)),
      r.IsLive .exact "http://site.test/" "http://x.test/ads/ok" := by
    decide +kernel
  obtain ⟨engine, hengine⟩ := exists_create (Loading.lines { index := {} }
    ["/ads/*".toList, "@@/ads/ok^".toList]).index {} (by decide)
  obtain ⟨x, hx, hxtext⟩ := List.map_eq_singleton_iff.1 htext
  have hfirst := hlive x (by rw [hx]; exact List.mem_singleton_self x)
  refine ⟨engine, x, hengine, hxtext, ?_⟩
  rw [(evaluate_iff_live hengine _ _).2.1 x]
  exact ⟨hblocking, hfirst, [], [], hx, by simp⟩

end AdFilter.Engine
