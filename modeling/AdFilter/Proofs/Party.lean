import AdFilter.Proofs.Rule
import AdFilter.Proofs.Url

/-!
# Sources that are bare names

A source is the address of a page or the bare name of its host. Domain constraints in hierarchical
mode take both for the same (`Rule.admitsSource_page`). The party of a rule does not: a bare name has
the empty host, so it differs from the page on its own requests, and on those without a host
(`Party.admits_bare_iff`).
-/

namespace AdFilter

section
variable {host : String} (h : IsHostName host.toList)
include h

/-- Domain constraints in hierarchical mode take a bare name for a page of that host. -/
theorem Rule.admitsSource_page (r : Rule) :
    r.admitsSource .hierarchical (Url.page host) = r.admitsSource .hierarchical host :=
  admitsSource_of_sourceHost_eq ((Url.sourceHost_page h).trans (Url.sourceHost_bare h).symm) r

/-- A party takes a bare name for a page of that host unless the request is for that host, or for
none. -/
theorem Party.admits_bare_iff {p : Party} (hp : p.isAny = false) (request : String) :
    p.admits host request = p.admits (Url.page host) request ↔
      Url.hostOf request ≠ some host ∧ Url.hostOf request ≠ some "" := by
  have hne : host ≠ "" := fun he => h.ne_nil (by simp [he])
  rw [admits, admits, hp, Url.hostOf_bare h, Url.hostOf_page h]
  cases Url.hostOf request with
  | none => simp
  | some r =>
    have hbool : ∀ a b t : Bool, ((a != t) = (b != t)) ↔ (a = true ↔ b = true) := by decide
    simp only [Bool.false_or, hbool, beq_iff_eq, ne_eq, Option.some_inj]
    grind

end

/-- To a rule for third parties, a host that is given by its bare name is a third party to itself. -/
theorem Party.admits_bare_iff_self :
    let p : Party := { third := true }
    p.admits "a.test" "http://b.test/ads/1" = p.admits (Url.page "a.test") "http://b.test/ads/1" ∧
      p.admits "a.test" "http://a.test/ads/1" ≠
        p.admits (Url.page "a.test") "http://a.test/ads/1" := by
  intro p
  have hother : Url.hostOf "http://b.test/ads/1" = some "b.test" := by
    decide +kernel
  have hself : Url.hostOf "http://a.test/ads/1" = some "a.test" := by
    decide +kernel
  constructor
  · exact (admits_bare_iff (by decide) rfl _).2 (by rw [hother]; decide)
  · exact fun hsame => ((admits_bare_iff (by decide) rfl _).1 hsame).1 hself

/-- The two forms of a source are not the same to the party of a rule. -/
theorem Party.not_forall_admits_bare :
    ¬∀ (p : Party) (host request : String), p.isAny = false → IsHostName host.toList →
      '_' ∉ host.toList → p.admits host request = p.admits ("http://" ++ host ++ "/") request := by
  intro h
  have hsame := h { third := true } "a.test" "http://a.test/ads/1" rfl (by decide) (by decide)
  have hbare : ({ third := true } : Party).admits "a.test" "http://a.test/ads/1" = true := by
    decide +kernel
  have hpage : ({ third := true } : Party).admits ("http://" ++ "a.test" ++ "/")
      "http://a.test/ads/1" = false := by
    decide +kernel
  rw [hbare, hpage] at hsame
  cases hsame

end AdFilter
