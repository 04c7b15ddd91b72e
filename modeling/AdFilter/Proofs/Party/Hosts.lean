import AdFilter.Rule

/-!
# First and third parties

The party of a rule asks whether source and request have the same host, port included, and nothing
else about the two addresses. First and third party exclude each other, but they are not each
other's negation: of an address without a readable host neither holds (`Party.admits_laws`).
-/

namespace AdFilter.Party

variable {p : Party} {source request : String}

theorem admits_of_hostOf {s r : String} (hsource : Url.hostOf source = some s)
    (hrequest : Url.hostOf request = some r) :
    p.admits source request = (p.isAny || ((s == r) != p.third)) := by
  rw [admits, hsource, hrequest]

/-- A party that is asked for is never found where a host cannot be read. -/
theorem admits_of_not_hostOf (hp : p.isAny = false)
    (h : Url.hostOf source = none ∨ Url.hostOf request = none) : p.admits source request = false := by
  rw [admits, hp]
  rcases h with h | h
  · rw [h]
    rfl
  · rw [h]
    cases Url.hostOf source <;> rfl

theorem admits_comm (p : Party) (source request : String) :
    p.admits source request = p.admits request source := by
  cases hsource : Url.hostOf source with
  | none => simp [admits, hsource]
  | some s =>
    cases hrequest : Url.hostOf request with
    | none => simp [admits, hrequest]
    | some r =>
      rw [admits_of_hostOf hsource hrequest, admits_of_hostOf hrequest hsource, BEq.comm (a := s)]

theorem admits_congr {source' request' : String} (hsource : Url.hostOf source' = Url.hostOf source)
    (hrequest : Url.hostOf request' = Url.hostOf request) :
    p.admits source' request' = p.admits source request := by
  rw [admits, admits, hsource, hrequest]

/-- What the two parties have to do with each other, and with the hosts of the two addresses. -/
theorem admits_laws (source request : String) :
    let firstOnly : Party := { first := true }
    let thirdOnly : Party := { third := true }
    let both : Party := { first := true, third := true }
    (Url.hostOf source = none ∨ Url.hostOf request = none →
      firstOnly.admits source request = false ∧ thirdOnly.admits source request = false) ∧
    (∀ s r, Url.hostOf source = some s → Url.hostOf request = some r →
      (firstOnly.admits source request = true ↔ s = r) ∧
        (thirdOnly.admits source request = true ↔ s ≠ r)) ∧
    both.admits source request = thirdOnly.admits source request ∧
    ∀ p : Party, p.admits source request = p.admits request source ∧
      ∀ source' request', Url.hostOf source' = Url.hostOf source →
        Url.hostOf request' = Url.hostOf request →
        p.admits source' request' = p.admits source request := by
  intro firstOnly thirdOnly both
  refine ⟨fun h => ⟨admits_of_not_hostOf rfl h, admits_of_not_hostOf rfl h⟩, ?_, rfl, fun p => ?_⟩
  · intro s r hsource hrequest
    rw [admits_of_hostOf hsource hrequest, admits_of_hostOf hsource hrequest]
    simp [firstOnly, thirdOnly, isAny]
  · exact ⟨admits_comm p source request, fun _ _ => admits_congr⟩

/-- A host and the same host with another port are third parties to each other, with whatever stands
around them; a host with a space in it is neither first nor third party to anything. -/
theorem admits_laws_port :
    let thirdOnly : Party := { third := true }
    thirdOnly.admits "http://a.test:8080/x" "ftp://me@a.test/y?z" = true ∧
      thirdOnly.admits "https://you@a.test:8080#f" "//a.test" = true ∧
      thirdOnly.admits "http://a test/" "http://b.test/" = false := by
  intro thirdOnly
  have hport : Url.hostOf "http://a.test:8080/x" = some "a.test:8080" := by decide +kernel
  have hplain : Url.hostOf "ftp://me@a.test/y?z" = some "a.test" := by decide +kernel
  have hthird := ((admits_laws _ _).2.1 _ _ hport hplain).2.2 (by decide)
  refine ⟨hthird, ?_, ((admits_laws _ _).1 (.inl (by decide +kernel))).2⟩
  have hsource : Url.hostOf "https://you@a.test:8080#f" = Url.hostOf "http://a.test:8080/x" := by
    decide +kernel
  have hrequest : Url.hostOf "//a.test" = Url.hostOf "ftp://me@a.test/y?z" := by
    decide +kernel
  rw [((admits_laws _ _).2.2.2 thirdOnly).2 _ _ hsource hrequest]
  exact hthird

end AdFilter.Party
