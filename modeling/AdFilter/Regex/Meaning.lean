import AdFilter.Regex.Basic

/-!
# What an expression means

`Part.Matches` says which factors of a text a part matches. A factor is given together with the
text before and after it, because the anchors look at these. `Regex.Finds` is the unanchored
search: some factor of the text is matched.
-/

namespace AdFilter.Regex

/-- `n` factors in a row make up `mid`, in the text `before ++ mid ++ after`. -/
def InRow (M : (before mid after : List Char) → Prop) :
    (n : Nat) → (before mid after : List Char) → Prop
  | 0, _, mid, _ => mid = []
  | n + 1, before, mid, after => ∃ left right, mid = left ++ right ∧
      M before left (right ++ after) ∧ InRow M n (before ++ left) right after

/-- The part matches `mid` in the text `before ++ mid ++ after`. -/
def Part.Matches : Part → (before mid after : List Char) → Prop
  | .empty, _, mid, _ => mid = []
  | .never, _, _, _ => False
  | .one a, _, mid, _ => ∃ c, mid = [c] ∧ a.accepts c = true
  | .anchor a, before, mid, after => mid = [] ∧ a.holds before.getLast? after.head? = true
  | .seq p q, before, mid, after => ∃ left right, mid = left ++ right ∧
      p.Matches before left (right ++ after) ∧ q.Matches (before ++ left) right after
  | .alt p q, before, mid, after => p.Matches before mid after ∨ q.Matches before mid after
  | .repeated p least more, before, mid, after =>
      ∃ n, (∀ m ∈ more, n ≤ m) ∧ InRow p.Matches (least + n) before mid after

/-- The expression matches some factor of the text. -/
def Finds (r : Regex) (text : List Char) : Prop :=
  ∃ before mid after, text = before ++ mid ++ after ∧ r.part.Matches before mid after

end AdFilter.Regex
