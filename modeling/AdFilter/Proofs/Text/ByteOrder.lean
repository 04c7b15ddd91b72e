import AdFilter.Proofs.Text.Encoding

/-!
# The order of bytes

Texts stand in the order of their code points, and that is the order of their bytes
(`utf8_lt_utf8_iff`). The bytes of a character are its digits to the base 64, and the first one
tells how many there are, so where two characters differ, their bytes tell which one comes first.
-/

namespace AdFilter.Text

namespace Utf8

theorem ofNat_cons_lt {m n : Nat} (h : m < n) (hn : n < 256) (x y : List UInt8) :
    UInt8.ofNat m :: x < UInt8.ofNat n :: y := by
  rw [List.cons_lt_cons_iff, UInt8.lt_iff_toNat_lt, UInt8.toNat_ofNat', UInt8.toNat_ofNat']
  omega

/-- Of two numbers that agree in the digits before the last `k` ones, the last ones tell which comes
first, whatever follows them. -/
theorem continuation_append_lt {m n k : Nat} (h : m < n) (hfront : m / 64 ^ k = n / 64 ^ k)
    (x y : List UInt8) : continuation m k ++ x < continuation n k ++ y := by
  induction k with
  | zero => simp at hfront; omega
  | succ k ih =>
    rw [continuation, continuation, List.cons_append, List.cons_append]
    rw [Nat.pow_succ, ← Nat.div_div_eq_div_mul, ← Nat.div_div_eq_div_mul] at hfront
    rcases Nat.eq_or_lt_of_le (Nat.div_le_div_right (Nat.le_of_lt h)) with heq | hlt
    · rw [heq, List.cons_lt_cons_iff]
      exact .inr ⟨rfl, ih heq⟩
    · exact ofNat_cons_lt (by omega) (by omega) _ _

theorem IsForm.append_lt {m n k k' lead lead' : Nat} (hm : IsForm m k lead) (hn : IsForm n k' lead')
    (h : m < n) (x y : List UInt8) :
    UInt8.ofNat (lead + m / 64 ^ k) :: (continuation m k ++ x) <
      UInt8.ofNat (lead' + n / 64 ^ k') :: (continuation n k' ++ y) := by
  have hbyte : lead' + n / 64 ^ k' < 256 := by
    cases hn <;> simp <;> omega
  -- a character with fewer bytes has a smaller first byte
  have hfirst : lead + m / 64 ^ k < lead' + n / 64 ^ k' ∨
      k = k' ∧ lead = lead' ∧ m / 64 ^ k = n / 64 ^ k' := by
    cases hm <;> cases hn <;> simp <;> omega
  rcases hfirst with hlt | ⟨rfl, rfl, hfront⟩
  · exact ofNat_cons_lt hlt hbyte _ _
  · rw [hfront, List.cons_lt_cons_iff]
    exact .inr ⟨rfl, continuation_append_lt h hfront x y⟩

end Utf8

open Utf8

/-- The bytes of a smaller character come first, whatever follows them. -/
theorem utf8EncodeChar_append_lt {c d : Char} (h : c < d) (x y : List UInt8) :
    String.utf8EncodeChar c ++ x < String.utf8EncodeChar d ++ y := by
  obtain ⟨k, lead, hc⟩ := exists_isForm (n := c.toNat) c.valid
  obtain ⟨k', lead', hd⟩ := exists_isForm (n := d.toNat) d.valid
  have hcbytes := hc.utf8EncodeChar_eq c.valid
  have hdbytes := hd.utf8EncodeChar_eq d.valid
  rw [Char.ofNat_toNat] at hcbytes hdbytes
  rw [hcbytes, hdbytes, List.cons_append, List.cons_append]
  exact hc.append_lt hd h x y

theorem utf8_lt_utf8 {s t : List Char} (h : s < t) : utf8 s < utf8 t := by
  induction s generalizing t with
  | nil =>
    cases t with
    | nil => cases h
    | cons d t =>
      obtain ⟨b, bs, hbytes⟩ := List.exists_cons_of_ne_nil (mt utf8_eq_nil_iff.1 (List.cons_ne_nil d t))
      rw [hbytes]
      exact List.nil_lt_cons b bs
  | cons c s ih =>
    cases t with
    | nil => cases h
    | cons d t =>
      rw [utf8_cons, utf8_cons]
      rcases List.cons_lt_cons_iff.1 h with hlt | ⟨rfl, hlt⟩
      · exact utf8EncodeChar_append_lt hlt _ _
      · exact List.append_left_lt (ih hlt)

theorem utf8_lt_utf8_iff {s t : List Char} : utf8 s < utf8 t ↔ s < t := by
  refine ⟨fun h => Decidable.by_contra fun hnot => ?_, utf8_lt_utf8⟩
  rcases List.le_iff_lt_or_eq.1 (List.not_lt.1 hnot) with hlt | rfl
  · exact List.lt_asymm h (utf8_lt_utf8 hlt)
  · exact List.lt_irrefl _ h

theorem compare_eq_lt_iff {a b : String} :
    compare a b = .lt ↔ utf8 a.toList < utf8 b.toList := by
  rw [utf8_lt_utf8_iff]
  exact compareOfLessAndEq_eq_lt

theorem utf8_inj {s t : List Char} : utf8 s = utf8 t ↔ s = t := by
  refine ⟨fun h => ?_, congrArg utf8⟩
  exact (utf8_prefix_iff.1 (h ▸ List.prefix_refl _)).eq_of_length_le
    (utf8_prefix_iff.1 (h ▸ List.prefix_refl _)).length_le

theorem compare_list_eq_lt_iff {a b : List String} :
    compare a b = .lt ↔ a.map (utf8 ·.toList) < b.map (utf8 ·.toList) := by
  induction a generalizing b with
  | nil =>
    cases b with
    | nil => decide
    | cons y b => simp
  | cons x a ih =>
    cases b with
    | nil => simp
    | cons y b =>
      rw [List.map_cons, List.map_cons, List.cons_lt_cons_iff, utf8_inj, String.toList_inj, ← ih,
        ← compare_eq_lt_iff, List.compare_eq_compareLex, List.compareLex_cons_cons,
        Ordering.then_eq_lt, Std.LawfulEqOrd.compare_eq_iff_eq]

end AdFilter.Text
