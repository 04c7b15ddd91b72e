import AdFilter.Proofs.Domain
import AdFilter.Rule

/-!
# Domain constraints of rules

What an entry of the constraints says of a source is told by its name: in exact mode the source is
the name, in hierarchical mode the host of the source is the name but for case, or ends with it
behind a dot (`DomainConstraint.appliesTo_iff`). A rule asks no more of its entries than that one of
them admits the source, so their order and their number do not matter (`Rule.admitsSource_congr`).
-/

namespace AdFilter

namespace DomainConstraint

/-- The entry applies to the source. -/
def Applies (c : DomainConstraint) (source : String) : ConstraintMode → Prop
  | .exact => c.name = source
  | .hierarchical =>
    c.name.toList.map Char.toLower = (Url.sourceHost source).toList.map Char.toLower ∨
      '.' :: c.name.toList.map Char.toLower <:+ (Url.sourceHost source).toList.map Char.toLower

variable {c : DomainConstraint} {source : String} {mode : ConstraintMode}

theorem appliesTo_iff : c.appliesTo mode source = true ↔ c.Applies source mode := by
  cases mode with
  | exact => exact beq_iff_eq
  | hierarchical => exact Domain.covers_ofChars_iff

theorem admits_iff : c.admits mode source = true ↔
    c.negated = false ∧ c.Applies source mode ∨ c.negated = true ∧ ¬c.Applies source mode := by
  rw [admits, ← appliesTo_iff]
  cases c.negated <;> cases c.appliesTo mode source <;> decide

/-- A source that is its own host is under the name that it is equal to. -/
theorem Applies.hierarchical (h : c.Applies source .exact) (hhost : Url.sourceHost source = source) :
    c.Applies source .hierarchical := by
  have hname : c.name = source := h
  refine .inl ?_
  rw [hhost, hname]

end DomainConstraint

namespace Rule

variable {r : Rule} {source : String} {mode : ConstraintMode}

theorem admitsSource_iff_exists : r.admitsSource mode source = true ↔
    r.domains = [] ∨ ∃ c ∈ r.domains, c.admits mode source = true := by
  rw [admitsSource, Bool.or_eq_true, List.isEmpty_iff, List.any_eq_true]

theorem admitsSource_congr {r' : Rule} (h : ∀ c, c ∈ r'.domains ↔ c ∈ r.domains)
    (mode : ConstraintMode) (source : String) :
    r'.admitsSource mode source = r.admitsSource mode source := by
  have hnil : r'.domains = [] ↔ r.domains = [] := by
    rw [List.eq_nil_iff_forall_not_mem, List.eq_nil_iff_forall_not_mem]
    exact forall_congr' fun c => not_congr (h c)
  rw [Bool.eq_iff_iff, admitsSource_iff_exists, admitsSource_iff_exists, hnil]
  exact or_congr_right (exists_congr fun c => and_congr_left' (h c))

theorem admitsSource_of_sourceHost_eq {source' : String}
    (h : Url.sourceHost source = Url.sourceHost source') (r : Rule) :
    r.admitsSource .hierarchical source = r.admitsSource .hierarchical source' := by
  simp only [admitsSource, DomainConstraint.admits, DomainConstraint.appliesTo, h]

/-- Two entries with a `~` and different names admit every source in exact mode. -/
theorem admitsSource_of_negated_ne {a b : DomainConstraint} (ha : a ∈ r.domains)
    (hb : b ∈ r.domains) (hanegated : a.negated = true) (hbnegated : b.negated = true)
    (hne : a.name ≠ b.name) : r.admitsSource .exact source = true := by
  refine admitsSource_iff_exists.2 (.inr ?_)
  -- the source is not both names
  by_cases hsource : a.name = source
  · refine ⟨b, hb, DomainConstraint.admits_iff.2 (.inr ⟨hbnegated, fun happlies => ?_⟩)⟩
    exact hne (hsource.trans (show b.name = source from happlies).symm)
  · exact ⟨a, ha, DomainConstraint.admits_iff.2 (.inr ⟨hanegated, hsource⟩)⟩

/-- Where no entry has a `~`, what the exact mode admits the hierarchical one does. -/
theorem admitsSource_hierarchical (hhost : Url.sourceHost source = source)
    (hplain : ∀ c ∈ r.domains, c.negated = false) (h : r.admitsSource .exact source = true) :
    r.admitsSource .hierarchical source = true := by
  rw [admitsSource_iff_exists] at h ⊢
  refine h.imp_right fun ⟨c, hc, hadmits⟩ => ⟨c, hc, DomainConstraint.admits_iff.2 (.inl ?_)⟩
  rcases DomainConstraint.admits_iff.1 hadmits with ⟨hnegated, happlies⟩ | ⟨hnegated, -⟩
  · exact ⟨hnegated, happlies.hierarchical hhost⟩
  · exact absurd (hplain c hc) (by simp [hnegated])

/-- Where every entry has a `~`, it is the other way round. -/
theorem admitsSource_exact (hhost : Url.sourceHost source = source)
    (hnegated : ∀ c ∈ r.domains, c.negated = true)
    (h : r.admitsSource .hierarchical source = true) : r.admitsSource .exact source = true := by
  rw [admitsSource_iff_exists] at h ⊢
  refine h.imp_right fun ⟨c, hc, hadmits⟩ => ⟨c, hc, DomainConstraint.admits_iff.2 (.inr ?_)⟩
  rcases DomainConstraint.admits_iff.1 hadmits with ⟨hplain, -⟩ | ⟨-, hnot⟩
  · exact absurd (hnegated c hc) (by simp [hplain])
  · exact ⟨hnegated c hc, fun happlies => hnot (happlies.hierarchical hhost)⟩

/-- When the constraints of a rule admit a source, and what the two modes have to do with each
other. -/
theorem admitsSource_laws (r : Rule) (source : String) :
    (∀ mode, r.admitsSource mode source = true ↔ r.domains = [] ∨
      (∃ c ∈ r.domains, c.negated = false ∧ c.Applies source mode) ∨
        ∃ c ∈ r.domains, c.negated = true ∧ ¬c.Applies source mode) ∧
    (∀ r' : Rule, (∀ c, c ∈ r'.domains ↔ c ∈ r.domains) →
      ∀ mode, r'.admitsSource mode source = r.admitsSource mode source) ∧
    (∀ a ∈ r.domains, ∀ b ∈ r.domains, a.negated = true → b.negated = true → a.name ≠ b.name →
      r.admitsSource .exact source = true) ∧
    (Url.sourceHost source = source →
      ((∀ c ∈ r.domains, c.negated = false) → r.admitsSource .exact source = true →
        r.admitsSource .hierarchical source = true) ∧
      ((∀ c ∈ r.domains, c.negated = true) → r.admitsSource .hierarchical source = true →
        r.admitsSource .exact source = true)) := by
  refine ⟨fun mode => ?_, fun r' h mode => admitsSource_congr h mode source, ?_, fun hhost => ?_⟩
  · simp only [admitsSource_iff_exists, DomainConstraint.admits_iff, and_or_left, exists_or]
  · exact fun a ha b hb hanegated hbnegated => admitsSource_of_negated_ne ha hb hanegated hbnegated
  · exact ⟨admitsSource_hierarchical hhost, admitsSource_exact hhost⟩

/-- What an entry with a `~` admits in hierarchical mode it admits in exact mode too, but a host
below its domain is admitted in exact mode alone. -/
theorem admitsSource_laws_tilde :
    let r : Rule := { text := "ads$domain=~A.test", pattern := .compile "ads" false,
                      domains := [{ name := "A.test", negated := true }] }
    Url.sourceHost "b.test" = "b.test" ∧ r.admitsSource .hierarchical "b.test" = true ∧
      r.admitsSource .exact "b.test" = true ∧ r.admitsSource .exact "www.a.test" = true ∧
      r.admitsSource .hierarchical "www.a.test" = false := by
  intro r
  have hhost : Url.sourceHost "b.test" = "b.test" := by decide +kernel
  have hnegated : ∀ c ∈ r.domains, c.negated = true := List.forall_mem_singleton.2 rfl
  have hadmits : r.admitsSource .hierarchical "b.test" = true := by decide +kernel
  have hexact := ((admitsSource_laws r "b.test").2.2.2 hhost).2 hnegated hadmits
  exact ⟨hhost, hadmits, hexact, by decide +kernel, by decide +kernel⟩

end Rule

end AdFilter
