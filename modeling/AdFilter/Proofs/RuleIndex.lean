import AdFilter.Proofs.KeywordIndex
import AdFilter.RuleIndex

/-!
# Verdicts and live rules

A rule is live for a request when its keyword occurs in the address, or is empty, and the rule
matches. `Holds index rules` says that an index was filled with the rules; its verdict then follows
from the first live rules in the order of candidates, one lemma for each verdict.
-/

namespace AdFilter

/-- The rule is among the candidates for the request, and matches it. -/
def Rule.IsLive (mode : ConstraintMode) (source request : String) (r : Rule) : Prop :=
  (r.keyword = "" ∨ r.keyword.toList <:+: request.toList) ∧ r.isMatch mode source request = true

instance (mode : ConstraintMode) (source request : String) :
    DecidablePred (Rule.IsLive mode source request) := fun _ =>
  inferInstanceAs (Decidable (_ ∧ _))

/-- The empty keyword occurs in every address. -/
theorem Rule.isLive_iff {mode : ConstraintMode} {source request : String} {r : Rule} :
    r.IsLive mode source request ↔
      r.keyword.toList <:+: request.toList ∧ r.isMatch mode source request = true := by
  refine and_congr_left fun _ => or_iff_right_of_imp ?_
  intro hk
  simp [hk]

/-- The rule has the property, and none before it in the list has. -/
def IsFirst (p : Rule → Prop) (rules : List Rule) (r : Rule) : Prop :=
  p r ∧ ∃ before after, rules = before ++ r :: after ∧ ∀ s ∈ before, ¬p s

theorem find?_eq_some_iff_isFirst {p : Rule → Prop} [DecidablePred p] {rules : List Rule}
    {r : Rule} : rules.find? (p ·) = some r ↔ IsFirst p rules r := by
  simp [List.find?_eq_some_iff_append, IsFirst]

namespace KeywordIndex

variable {index : KeywordIndex} {rules : List Rule}

theorem Files.find?_eq (h : Files index rules) (mode : ConstraintMode) (source request : String) :
    index.find? mode source request =
      (candidateOrder rules).find? (Rule.IsLive mode source request ·) := by
  unfold KeywordIndex.find?
  rw [h.candidates, List.find?_filter]
  congr 1
  funext r
  rw [decide_eq_decide, Fingerprint.occursIn_ofString, Rule.isLive_iff]

theorem Files.mem_candidates_iff (h : Files index rules) {request : String} {r : Rule} :
    r ∈ index.candidates request ↔ r ∈ rules ∧ r.keyword.toList <:+: request.toList := by
  rw [h.candidates, List.mem_filter, mem_candidateOrder, Fingerprint.occursIn_ofString]

theorem Files.find?_eq_none_iff (h : Files index rules) {mode : ConstraintMode}
    {source request : String} :
    index.find? mode source request = none ↔ ∀ r ∈ rules, ¬r.IsLive mode source request := by
  simp [h.find?_eq, List.find?_eq_none, mem_candidateOrder]

theorem Files.find?_eq_some_iff (h : Files index rules) {mode : ConstraintMode}
    {source request : String} {r : Rule} :
    index.find? mode source request = some r ↔
      IsFirst (Rule.IsLive mode source request) (candidateOrder rules) r := by
  rw [h.find?_eq, find?_eq_some_iff_isFirst]

theorem Files.exists_live_iff (h : Files index rules) {mode : ConstraintMode}
    {source request : String} :
    (∃ r ∈ rules, r.IsLive mode source request) ↔ ∃ r, index.find? mode source request = some r := by
  rw [← Option.ne_none_iff_exists', Ne, h.find?_eq_none_iff]
  simp

end KeywordIndex

namespace RuleIndex

/-- The index was filled with the rules, in their order. -/
structure Holds (index : RuleIndex) (rules : List Rule) : Prop where
  block : index.block.Files (rules.filter (!·.isException))
  exception : index.exception.Files (rules.filter (·.isException))

theorem Holds.empty : Holds {} [] where
  block := .empty
  exception := .empty

variable {index : RuleIndex} {rules : List Rule}

theorem Holds.addRule (h : Holds index rules) (rule : Rule) :
    Holds (index.addRule rule) (rules ++ [rule]) := by
  unfold RuleIndex.addRule
  split
  · next he => exact ⟨by simpa [he] using h.block, by simpa [he] using h.exception.insert rule⟩
  · next he => exact ⟨by simpa [he] using h.block.insert rule, by simpa [he] using h.exception⟩

theorem Holds.addHide (h : Holds index rules) (entry : HideEntry) :
    Holds (index.addHide entry) rules :=
  ⟨h.block, h.exception⟩

section
variable {mode : ConstraintMode} {source request : String}

theorem Holds.evaluate_eq_allowed_iff (h : Holds index rules) :
    index.evaluate mode source request = .allowed ↔
      ∀ r ∈ rules.filter (!·.isException), ¬r.IsLive mode source request := by
  rw [← h.block.find?_eq_none_iff, evaluate]
  cases index.block.find? mode source request with
  | none => simp
  | some b => cases index.exception.find? mode source request <;> simp

theorem Holds.evaluate_eq_excepted_iff (h : Holds index rules) {x : Rule} :
    index.evaluate mode source request = .excepted x ↔
      (∃ r ∈ rules.filter (!·.isException), r.IsLive mode source request) ∧
        IsFirst (Rule.IsLive mode source request) (candidateOrder (rules.filter (·.isException))) x := by
  rw [← h.exception.find?_eq_some_iff, h.block.exists_live_iff, evaluate]
  cases index.block.find? mode source request with
  | none => simp
  | some b => cases index.exception.find? mode source request <;> simp

theorem Holds.evaluate_eq_blocked_iff (h : Holds index rules) {b : Rule} :
    index.evaluate mode source request = .blocked (some b) ↔
      IsFirst (Rule.IsLive mode source request)
          (candidateOrder (rules.filter (!·.isException))) b ∧
        ∀ r ∈ rules.filter (·.isException), ¬r.IsLive mode source request := by
  rw [← h.exception.find?_eq_none_iff, ← h.block.find?_eq_some_iff, evaluate]
  cases index.block.find? mode source request with
  | none => simp
  | some b => cases index.exception.find? mode source request <;> simp

theorem Holds.exists_evaluate_eq_excepted_iff (h : Holds index rules) :
    (∃ x, index.evaluate mode source request = .excepted x) ↔
      (∃ r ∈ rules.filter (!·.isException), r.IsLive mode source request) ∧
        ∃ x ∈ rules.filter (·.isException), x.IsLive mode source request := by
  simp only [h.evaluate_eq_excepted_iff, exists_and_left, ← h.exception.find?_eq_some_iff,
    ← h.exception.exists_live_iff]

/-- The kind of the verdict depends on nothing but whether there are live rules. -/
theorem Holds.word_eq (h : Holds index rules) :
    (index.evaluate mode source request).word =
      if ∃ r ∈ rules, r.isException = false ∧ r.IsLive mode source request then
        if ∃ r ∈ rules, r.isException = true ∧ r.IsLive mode source request then "excepted"
        else "blocked"
      else "allowed" := by
  have hblock : (∃ r ∈ rules, r.isException = false ∧ r.IsLive mode source request) ↔
      ∃ r, index.block.find? mode source request = some r := by
    rw [← h.block.exists_live_iff]
    simp [and_assoc]
  have hexception : (∃ r ∈ rules, r.isException = true ∧ r.IsLive mode source request) ↔
      ∃ r, index.exception.find? mode source request = some r := by
    rw [← h.exception.exists_live_iff]
    simp [and_assoc]
  unfold evaluate
  cases hb : index.block.find? mode source request with
  | none =>
    rw [if_neg (by simp [hblock, hb])]
    rfl
  | some b =>
    rw [if_pos (hblock.2 ⟨b, hb⟩)]
    cases hx : index.exception.find? mode source request with
    | none =>
      rw [if_neg (by simp [hexception, hx])]
      rfl
    | some x =>
      rw [if_pos (hexception.2 ⟨x, hx⟩)]
      rfl

/-- The same rules in another order, or with repeats, give the same kind of verdict. -/
theorem Holds.word_congr (h : Holds index rules) {index' : RuleIndex} {rules' : List Rule}
    (h' : Holds index' rules') (hsame : ∀ r, r ∈ rules ↔ r ∈ rules') :
    (index.evaluate mode source request).word = (index'.evaluate mode source request).word := by
  rw [h.word_eq, h'.word_eq]
  simp only [hsame]

theorem evaluate_ne_blocked_none (index : RuleIndex) :
    index.evaluate mode source request ≠ .blocked none := by
  unfold evaluate
  cases index.block.find? mode source request with
  | none => simp
  | some b => cases index.exception.find? mode source request <;> simp

end

end RuleIndex

end AdFilter
