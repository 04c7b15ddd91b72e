import AdFilter.Proofs.Text.Split
import AdFilter.Text.Quoted

/-!
# Reading quoted text back

No character is written between quotes as the beginning of what another one is written as
(`IsQuotedAs.append_inj`), and none starts with a bare quote, so a quoted text is known by any text
that starts with it (`quotedChars_append_inj`). It stands on one line, whatever is quoted.
-/

namespace AdFilter.Text

/-! ## Hexadecimal numbers -/

def hexDigits : List Char :=
  "0123456789abcdef".toList

theorem mem_hexDigits_of_mem_toDigits {n : Nat} : ∀ c ∈ Nat.toDigits 16 n, c ∈ hexDigits := by
  have hdigit : ∀ d < 16, d.digitChar ∈ hexDigits := by decide
  induction n using Nat.strongRecOn with
  | _ n ih =>
    intro c hc
    rw [Nat.toDigits_eq_if (by decide)] at hc
    split at hc
    · next hlt =>
      rw [List.mem_singleton.1 hc]
      exact hdigit n hlt
    · rcases List.mem_append.1 hc with hc | hc
      · exact ih (n / 16) (by omega) c hc
      · rw [List.mem_singleton.1 hc]
        exact hdigit (n % 16) (Nat.mod_lt _ (by decide))

theorem toDigits_inj {m n : Nat} (h : Nat.toDigits 16 m = Nat.toDigits 16 n) : m = n := by
  have hdigit : ∀ a < 16, ∀ b < 16, a.digitChar = b.digitChar → a = b := by decide
  have hone : ∀ {k : Nat} {c d : Char}, [c] ≠ Nat.toDigits 16 k ++ [d] := by
    intro k c d h
    rw [← List.nil_append [c]] at h
    exact Nat.toDigits_ne_nil (List.append_inj' h rfl).1.symm
  induction m using Nat.strongRecOn generalizing n with
  | _ m ih =>
    rw [Nat.toDigits_eq_if (by decide), Nat.toDigits_eq_if (n := n) (by decide)] at h
    split at h <;> split at h
    · next hm hn => exact hdigit m hm n hn (List.singleton_inj.1 h)
    · exact absurd h hone
    · exact absurd h.symm hone
    · next hm hn =>
      obtain ⟨hfront, hlast⟩ := List.append_inj' h rfl
      have hdiv : m / 16 = n / 16 := ih (m / 16) (by omega) hfront
      have hmod : m % 16 = n % 16 :=
        hdigit _ (Nat.mod_lt _ (by decide)) _ (Nat.mod_lt _ (by decide)) (List.singleton_inj.1 hlast)
      omega

/-! ## Escapes -/

/-- The characters with a short escape, and what stands behind the backslash in it. -/
def shortEscapes : List (Char × Char) :=
  [('\x00', '0'), ('\t', 't'), ('\r', 'r'), ('\n', 'n'), ('"', '"'), ('\\', '\\')]

/-- What can stand behind the backslash for a character. -/
inductive IsEscapeOf (c : Char) : List Char → Prop where
  | short {letter : Char} : (c, letter) ∈ shortEscapes → IsEscapeOf c [letter]
  | code : IsEscapeOf c ('u' :: '\x7b' :: Nat.toDigits 16 c.toNat ++ ['\x7d'])

/-- What can stand between quotes for a character: itself, or an escape. -/
inductive IsQuotedAs (c : Char) : List Char → Prop where
  | plain : c ≠ '"' → c ≠ '\\' → c ≠ '\n' → IsQuotedAs c [c]
  | escape {s : List Char} : IsEscapeOf c s → IsQuotedAs c ('\\' :: s)

theorem isQuotedAs_escapeQuoted (c : Char) : IsQuotedAs c (escapeQuoted c) := by
  unfold escapeQuoted
  split
  · exact .escape (.short (by decide))
  · exact .escape (.short (by decide))
  · exact .escape (.short (by decide))
  · exact .escape (.short (by decide))
  · exact .escape (.short (by decide))
  · exact .escape (.short (by decide))
  · next hnewline hquote hbackslash =>
    split
    · exact .escape .code
    · exact .plain hquote hbackslash hnewline

section
variable {c d : Char} {s t x y : List Char}

theorem IsEscapeOf.append_inj (hs : IsEscapeOf c s) (ht : IsEscapeOf d t) (h : s ++ x = t ++ y) :
    c = d ∧ x = y := by
  have hletter : ∀ e ∈ shortEscapes, ∀ e' ∈ shortEscapes, e.2 = e'.2 → e.1 = e'.1 := by decide
  have hcode : ∀ e ∈ shortEscapes, e.2 ≠ 'u' := by decide
  cases hs with
  | short hc =>
    cases ht with
    | short hd =>
      obtain ⟨hsame, hrest⟩ := List.cons.inj h
      exact ⟨hletter _ hc _ hd hsame, hrest⟩
    | code => exact absurd (List.cons.inj h).1 (hcode _ hc)
  | code =>
    cases ht with
    | short hd => exact absurd (List.cons.inj h).1.symm (hcode _ hd)
    | code =>
      simp only [List.cons_append, List.append_assoc, List.cons.injEq, true_and] at h
      obtain ⟨hdigits, hrest⟩ := run_unique (p := (· ∈ hexDigits)) mem_hexDigits_of_mem_toDigits
        mem_hexDigits_of_mem_toDigits (by simp; decide) (by simp; decide) h
      exact ⟨Char.toNat_inj.1 (toDigits_inj hdigits), (List.cons.inj hrest).2⟩

/-- What a character is written as is not the beginning of what another one is written as. -/
theorem IsQuotedAs.append_inj (hs : IsQuotedAs c s) (ht : IsQuotedAs d t) (h : s ++ x = t ++ y) :
    c = d ∧ x = y := by
  cases hs with
  | plain _ hc _ =>
    cases ht with
    | plain => exact List.cons.inj h
    | escape => exact absurd (List.cons.inj h).1 hc
  | escape hs =>
    cases ht with
    | plain _ hd _ => exact absurd (List.cons.inj h).1.symm hd
    | escape ht => exact hs.append_inj ht (List.cons.inj h).2

theorem IsQuotedAs.head?_ne_quote (hs : IsQuotedAs c s) (rest : List Char) :
    (s ++ rest).head? ≠ some '"' := by
  cases hs with
  | plain hc => simpa using hc
  | escape => simp

theorem IsQuotedAs.newline_not_mem (hs : IsQuotedAs c s) : '\n' ∉ s := by
  have hletter : ∀ e ∈ shortEscapes, e.2 ≠ '\n' := by decide
  cases hs with
  | plain _ _ hc => simpa using hc.symm
  | escape hs =>
    cases hs with
    | short hc => simpa using (hletter _ hc).symm
    | code =>
      have hdigits : '\n' ∉ Nat.toDigits 16 c.toNat := fun hmem =>
        absurd (mem_hexDigits_of_mem_toDigits _ hmem) (by decide)
      simpa using hdigits

/-! ## Quoted text -/

/-- The closing quote is the first bare one. -/
theorem flatMap_escapeQuoted_append_inj
    (h : s.flatMap escapeQuoted ++ '"' :: x = t.flatMap escapeQuoted ++ '"' :: y) :
    s = t ∧ x = y := by
  induction s generalizing t with
  | nil =>
    cases t with
    | nil => exact ⟨rfl, (List.cons.inj h).2⟩
    | cons d t =>
      rw [List.flatMap_cons, List.append_assoc] at h
      exact absurd (congrArg List.head? h).symm ((isQuotedAs_escapeQuoted d).head?_ne_quote _)
  | cons c s ih =>
    rw [List.flatMap_cons, List.append_assoc] at h
    cases t with
    | nil => exact absurd (congrArg List.head? h) ((isQuotedAs_escapeQuoted c).head?_ne_quote _)
    | cons d t =>
      rw [List.flatMap_cons, List.append_assoc] at h
      obtain ⟨rfl, hrest⟩ :=
        (isQuotedAs_escapeQuoted c).append_inj (isQuotedAs_escapeQuoted d) h
      obtain ⟨rfl, hxy⟩ := ih hrest
      exact ⟨rfl, hxy⟩

theorem quotedChars_append_inj (h : quotedChars s ++ x = quotedChars t ++ y) : s = t ∧ x = y := by
  rw [quotedChars, quotedChars, List.cons_append, List.cons_append, List.append_assoc,
    List.append_assoc] at h
  exact flatMap_escapeQuoted_append_inj (List.cons.inj h).2

theorem newline_not_mem_quotedChars (s : List Char) : '\n' ∉ quotedChars s := by
  have hbody : '\n' ∉ s.flatMap escapeQuoted := by
    rw [List.mem_flatMap]
    rintro ⟨c, -, hc⟩
    exact (isQuotedAs_escapeQuoted c).newline_not_mem hc
  simpa [quotedChars] using hbody

end

end AdFilter.Text
