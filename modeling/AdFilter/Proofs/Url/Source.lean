import AdFilter.Proofs.Rule
import AdFilter.Proofs.Url

/-!
# Sources

To take the host of a source is to bring it into a normal form: what comes out is its own host, for
any text. Of a page and of the bare name of its host the same comes out, so the domain constraints
of a rule cannot tell them apart in hierarchical mode (`sourceHost_laws`).
-/

namespace AdFilter.Url

/-- The host of a source is its own host, and it is the name of the host for all addresses with
it. -/
theorem sourceHost_laws :
    (∀ source : String, sourceHost (sourceHost source) = sourceHost source) ∧
    ∀ (host page : String) (port : List Char), IsHostName host.toList → IsPort port →
      IsAddressOf (host.toList ++ port) page.toList → (∀ c ∈ page.toList, isControl c = false) →
      sourceHost page = host ∧ sourceHost host = host ∧
        ∀ r : Rule, r.admitsSource .hierarchical page = r.admitsSource .hierarchical host := by
  refine ⟨sourceHost_sourceHost, fun host page port hhost hport haddress hcontrol => ?_⟩
  have hpage : sourceHost page = host := by
    rw [sourceHost, sourceHostChars_of_isAddressOf hhost hport haddress hcontrol,
      String.ofList_toList]
  have hbare : sourceHost host = host := sourceHost_bare hhost
  exact ⟨hpage, hbare, Rule.admitsSource_of_sourceHost_eq (hpage.trans hbare.symm)⟩

/-- A page with all that can stand around its host, and a host that still has a colon when its port
is taken off. -/
theorem sourceHost_laws_port :
    sourceHost "ftp://me:a b@x@Www.a_b.test:80?to=//c.test/" = "Www.a_b.test" ∧
      sourceHost (sourceHost "//a:1:2/") = "a:1" := by
  constructor
  · have haddress : IsAddressOf ("Www.a_b.test".toList ++ ":80".toList)
        ("ftp".toList ++ ':' :: '/' :: '/' :: ("me:a b@x".toList ++ ['@'] ++
          ("Www.a_b.test".toList ++ ":80".toList) ++ "?to=//c.test/".toList)) :=
      .intro (by decide) (.userinfo (by decide)) (by rintro _ ⟨⟩; decide)
    exact (sourceHost_laws.2 "Www.a_b.test" "ftp://me:a b@x@Www.a_b.test:80?to=//c.test/"
      ":80".toList (by decide) (.digits (by decide)) haddress (by decide)).1
  · rw [sourceHost_laws.1]
    decide +kernel

end AdFilter.Url
