import AdFilter.Text.Blank
import AdFilter.Text.CaseFold

/-!
# Case folding and ASCII

Only letters of ASCII have another lower case, and it is a letter of ASCII, so a text without them
is the lower case of no other text (`map_toLower_eq_iff`). Folding keeps the characters of ASCII
among themselves, and the others outside of it, but for two: `ſ` is equal to `s` but for case, and
the sign for Kelvin is equal to `k` (`fold_eq_fold_ascii_iff`).
-/

namespace AdFilter.Text

theorem forall_ascii {p : Char → Prop} (h : ∀ n < 0x80, p (Char.ofNat n)) {c : Char}
    (hc : c.toNat < 0x80) : p c := by
  rw [← Char.ofNat_toNat c]
  exact h _ hc

/-- A property of every character of a text is decided by going through the text, not through all
characters that there are. -/
instance decidableForallMem {p : Char → Prop} [DecidablePred p] (s : List Char) :
    Decidable (∀ c ∈ s, p c) :=
  List.decidableBAll p s

theorem isAlphanum_ascii {c : Char} (h : c.isAlphanum = true) : c.toNat < 0x80 := by
  unfold Char.isAlphanum Char.isAlpha Char.isUpper Char.isLower Char.isDigit at h
  simp only [Bool.or_eq_true, Bool.and_eq_true, decide_eq_true_eq, UInt32.le_iff_toNat_le] at h
  have hval : c.toNat = c.val.toNat := rfl
  rw [hval]
  rcases h with (⟨-, h⟩ | ⟨-, h⟩) | ⟨-, h⟩ <;> exact Nat.lt_of_le_of_lt h (by decide)

/-! ## Lower case -/

theorem toLower_ascii {c : Char} (h : c.toNat < 0x80) : c.toLower.toNat < 0x80 :=
  forall_ascii (p := fun c => c.toLower.toNat < 0x80) (by decide) h

theorem toLower_of_not_ascii {c : Char} (h : ¬c.toNat < 0x80) : c.toLower = c := by
  have hupper : ¬(c.val ≥ 'A'.val ∧ c.val ≤ 'Z'.val) := by
    rintro ⟨-, hle⟩
    have hle : c.toNat ≤ 90 := hle
    omega
  unfold Char.toLower
  rw [dif_neg hupper]

theorem toList_toLower (s : String) : s.toLower.toList = s.toList.map Char.toLower :=
  String.toList_map

/-- What tells no letter of ASCII from the same letter in lower case tells no character from itself
in lower case. -/
theorem apply_toLower {α : Type} {f : Char → α}
    (h : ∀ n < 0x80, f (Char.ofNat n).toLower = f (Char.ofNat n)) (c : Char) :
    f c.toLower = f c := by
  by_cases hc : c.toNat < 0x80
  · exact forall_ascii (p := fun c => f c.toLower = f c) h hc
  · rw [toLower_of_not_ascii hc]

theorem toLower_toLower : ∀ c : Char, c.toLower.toLower = c.toLower :=
  apply_toLower (by decide)

theorem isBlank_toLower : ∀ c : Char, isBlank c.toLower = isBlank c :=
  apply_toLower (by decide)

theorem toLower_eq_iff {c d : Char} (h : d.isAlpha = false) : c.toLower = d ↔ c = d := by
  have hself : c.toLower.isAlpha = false ∨ c.isAlpha = false → c.toLower = c := by
    by_cases hc : c.toNat < 0x80
    · exact forall_ascii (p := fun c => c.toLower.isAlpha = false ∨ c.isAlpha = false → c.toLower = c)
        (by decide) hc
    · exact fun _ => toLower_of_not_ascii hc
  constructor
  · rintro rfl
    exact (hself (.inl h)).symm
  · rintro rfl
    exact hself (.inr h)

theorem map_toLower_eq_iff {s t : List Char} (h : ∀ c ∈ t, c.isAlpha = false) :
    s.map Char.toLower = t ↔ s = t := by
  induction s generalizing t with
  | nil => rfl
  | cons c s ih =>
    cases t with
    | nil => simp
    | cons d t =>
      obtain ⟨hd, ht⟩ := List.forall_mem_cons.1 h
      rw [List.map_cons, List.cons.injEq, List.cons.injEq, toLower_eq_iff hd, ih ht]

/-! ## Folding -/

theorem fold_of_ascii {c : Char} (h : c.toNat < 0x80) : fold c = c.toLower :=
  if_pos h

/-- The run is moved to characters, and to none of ASCII. -/
def staysOutside : Nat × Nat × Nat × Int → Bool
  | (first, last, _, shift) => 0x80 ≤ first + shift &&
    (last + shift < 0xD800 || (0xE000 ≤ first + shift && last + shift < 0x110000))

theorem staysOutside_foldRuns : ∀ run ∈ foldRuns,
    staysOutside run = true ∨ (run.1 = run.2.1 ∧ (run.1 = 0x17F ∨ run.1 = 0x212A)) := by
  decide +kernel

theorem toNat_ofNat_of_isValidChar {n : Nat} (h : n.isValidChar) : (Char.ofNat n).toNat = n := by
  unfold Char.ofNat
  rw [dif_pos h]
  rfl

theorem eq_of_fold_ascii {c : Char} (hc : 0x80 ≤ c.toNat) (hfold : (fold c).toNat < 0x80) :
    c = '\u017F' ∨ c = '\u212A' := by
  have hchar : ∀ d : Char, c.toNat = d.toNat → c = d := by
    intro d hd
    rw [← Char.ofNat_toNat c, hd, Char.ofNat_toNat]
  rw [fold, if_neg (by omega)] at hfold
  split at hfold
  · next first last gap shift hfind =>
    have hrun := List.find?_some hfind
    simp only [Bool.and_eq_true, decide_eq_true_eq] at hrun
    rcases staysOutside_foldRuns _ (List.mem_of_find?_eq_some hfind) with hout | ⟨hone, hcode⟩
    · simp only [staysOutside, Bool.and_eq_true, Bool.or_eq_true, decide_eq_true_eq] at hout
      have hvalid : (c.toNat + shift).toNat.isValidChar := by
        simp only [Nat.isValidChar]; omega
      rw [toNat_ofNat_of_isValidChar hvalid] at hfold
      omega
    · simp only at hone hcode
      rcases hcode with hcode | hcode
      · exact .inl (hchar _ (by simp; omega))
      · exact .inr (hchar _ (by simp; omega))
  · omega

theorem fold_eq_fold_ascii_iff {c d : Char} (hd : d.toNat < 0x80) :
    fold c = fold d ↔ (c.toNat < 0x80 ∧ c.toLower = d.toLower) ∨
      (c = '\u017F' ∧ d.toLower = 's') ∨ (c = '\u212A' ∧ d.toLower = 'k') := by
  have hlong : fold '\u017F' = 's' := by decide
  have hkelvin : fold '\u212A' = 'k' := by decide
  rw [fold_of_ascii hd]
  by_cases hc : c.toNat < 0x80
  · have hne : c ≠ '\u017F' ∧ c ≠ '\u212A' := by
      constructor <;> rintro rfl <;> simp at hc
    simp [fold_of_ascii hc, hc, hne]
  · constructor
    · intro h
      have hfold : (fold c).toNat < 0x80 := h ▸ toLower_ascii hd
      rcases eq_of_fold_ascii (by omega) hfold with rfl | rfl
      · exact .inr (.inl ⟨rfl, by rw [← h, hlong]⟩)
      · exact .inr (.inr ⟨rfl, by rw [← h, hkelvin]⟩)
    · rintro (⟨h, -⟩ | ⟨rfl, h⟩ | ⟨rfl, h⟩)
      · exact absurd h hc
      · rw [hlong, h]
      · rw [hkelvin, h]

/-- A character of ASCII that is no letter is equal to itself alone, also but for case. -/
theorem eq_of_fold_eq_fold {c d : Char} (hd : d.toNat < 0x80) (hletter : d.isAlpha = false)
    (h : fold c = fold d) : c = d := by
  have hlower : d.toLower ≠ 's' ∧ d.toLower ≠ 'k' :=
    forall_ascii (p := fun d => d.isAlpha = false → d.toLower ≠ 's' ∧ d.toLower ≠ 'k') (by decide)
      hd hletter
  rcases (fold_eq_fold_ascii_iff hd).1 h with ⟨-, hcd⟩ | ⟨-, hs⟩ | ⟨-, hk⟩
  · rwa [(toLower_eq_iff hletter).2 rfl, toLower_eq_iff hletter] at hcd
  · exact absurd hs hlower.1
  · exact absurd hk hlower.2

end AdFilter.Text
