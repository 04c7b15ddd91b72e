import AdFilter.Proofs.FilterLine.RuleLine
import AdFilter.Proofs.Glob.Keyword

/-!
# The option that makes case matter

Behind a line without options, `$match-case` gives the same rule but for its pattern
(`read_matchCaseLine`), and what the new pattern matches the old one matches too
(`Pattern.isMatch_of_matchCase`). That needs an argument for separators only: without regard to case
there are fewer of them, because `ſ` and the sign for Kelvin are equal to letters then.
-/

namespace AdFilter

namespace Glob

section
variable {before mid after : List Char}

theorem IsSeparator.caseless {c : Char} (h : IsSeparator true c) (hlong : c ≠ '\u017F')
    (hkelvin : c ≠ '\u212A') : IsSeparator false c :=
  isSeparator_iff.2 ⟨(isSeparator_iff.1 h).1, fun _ => ⟨hlong, hkelvin⟩⟩

theorem Piece.Consumes.caseless {p : Piece} (h : p.Consumes true before mid after)
    (hlong : '\u017F' ∉ mid) (hkelvin : '\u212A' ∉ mid) : p.Consumes false before mid after := by
  cases p with
  | char c =>
    obtain ⟨d, rfl, hsame⟩ := h
    exact ⟨d, rfl, .inl (hsame.resolve_right (by simp))⟩
  | wildcard => exact h
  | separator first last =>
    rcases h with ⟨c, rfl, hc⟩ | hend
    · rw [List.mem_singleton] at hlong hkelvin
      exact .inl ⟨c, rfl, hc.caseless (Ne.symm hlong) (Ne.symm hkelvin)⟩
    · exact .inr hend
  | bar first last => exact h
  | hostBar last => exact h

theorem Consumes.caseless {ps : List Piece} (h : Consumes true ps before mid after)
    (hlong : '\u017F' ∉ mid) (hkelvin : '\u212A' ∉ mid) : Consumes false ps before mid after := by
  induction ps generalizing before mid with
  | nil => exact h
  | cons p ps ih =>
    obtain ⟨left, right, rfl, hleft, hright⟩ := h
    rw [List.mem_append, not_or] at hlong hkelvin
    exact ⟨left, right, rfl, hleft.caseless hlong.1 hkelvin.1, ih hright hlong.2 hkelvin.2⟩

end

end Glob

namespace Pattern

theorem isMatch_of_matchCase {pattern request : String} (hlong : '\u017F' ∉ request.toList)
    (hkelvin : '\u212A' ∉ request.toList) (h : (compile pattern true).isMatch request = true) :
    (compile pattern false).isMatch request = true := by
  cases hspecial : pattern.toList.any Glob.isSpecial with
  | true =>
    obtain ⟨regex, hregex⟩ := Glob.exists_regex? hspecial true
    obtain ⟨caseless, hcaseless⟩ := Glob.exists_regex? hspecial false
    rw [compile, hregex] at h
    rw [compile, hcaseless]
    obtain ⟨before, mid, after, htext, hmid⟩ := (Glob.search_iff_consumes hregex _).1 h
    rw [htext, List.mem_append, List.mem_append, not_or, not_or] at hlong hkelvin
    exact (Glob.search_iff_consumes hcaseless _).2
      ⟨before, mid, after, htext, hmid.caseless hlong.1.2 hkelvin.1.2⟩
  | false =>
    rw [compile, Glob.regex?_eq_none hspecial] at h ⊢
    exact h

/-- Behind a text, `ſ` is a separator only where case matters. -/
example : (compile "ad^" true).isMatch "ad\u017F" = true ∧
    (compile "ad^" false).isMatch "ad\u017F" = false := by
  decide +kernel

end Pattern

namespace FilterLine

open Text (IsTrimmed)

/-- The line with the option that makes case matter. -/
def matchCaseLine (line : List Char) : List Char :=
  line ++ '$' :: "match-case".toList

section
variable {line : List Char} {r : Rule}

theorem splitHide_matchCaseLine (h : splitHide line = none) :
    splitHide (matchCaseLine line) = none := by
  have hmarks : ∀ mark : List Char, mark.getLast? = some '#' → ¬mark <:+: line →
      ¬mark <:+: matchCaseLine line := by
    intro mark hmark hline hlong
    refine hline (Text.infix_of_infix_append hlong fun c hc => ?_)
    obtain rfl : '#' = c := Option.some.inj (hmark.symm.trans hc)
    decide
  rw [splitHide_eq_none_iff] at h ⊢
  exact ⟨hmarks _ rfl h.1, hmarks _ rfl h.2⟩

theorem readRule_matchCaseLine (hdollar : '$' ∉ line) (h : readRule line = .ok r) :
    ∃ pattern, r.pattern = Pattern.compile pattern false ∧
      readRule (matchCaseLine line) = .ok { r with
        text := String.ofList (matchCaseLine line)
        matchCase := true
        pattern := Pattern.compile pattern true } := by
  have hdollar' := dollar_not_mem_splitException hdollar
  have hcut : splitOptions (splitException line).2 = ((splitException line).2, []) :=
    isOptionsCut_iff.1 (.none hdollar')
  have hexception : splitException (matchCaseLine line) =
      ((splitException line).1, (splitException line).2 ++ '$' :: "match-case".toList) :=
    splitException_append line _
  have hparts := readRule_eq_ok_iff.1 h
  rw [hcut] at hparts
  obtain ⟨hempty, hplain, hlarge, options, hoptions, rfl⟩ := hparts
  cases hoptions
  refine ⟨String.ofList (splitException line).2, rfl, readRule_eq_ok_iff.2 ?_⟩
  rw [hexception, splitOptions_append hdollar']
  exact ⟨hempty, hplain, hlarge, { matchCase := true }, rfl, by rw [ruleOf, ruleOf, hexception]⟩

/-- Behind the line of a rule without options, the option that makes case matter leaves everything else
about the rule as it is. What the pattern then matches it matched before, unless a character is in it
that is equal to a letter of ASCII but for case and is none. -/
theorem read_matchCaseLine (htrimmed : IsTrimmed line) (hdollar : '$' ∉ line)
    (h : read line = .ok (.rule r)) :
    ∃ pattern : Pattern,
      read (matchCaseLine line) = .ok (.rule { r with
        text := String.ofList (matchCaseLine line)
        matchCase := true
        pattern }) ∧
      pattern.isLiteral = r.pattern.isLiteral ∧
      ∀ request : String, '\u017F' ∉ request.toList → '\u212A' ∉ request.toList →
        pattern.isMatch request = true → r.pattern.isMatch request = true := by
  rw [read_eq_rule_iff, htrimmed.trim_eq] at h
  obtain ⟨hempty, hcomment, hhide, hrule⟩ := h
  obtain ⟨pattern, hpattern, hrule'⟩ := readRule_matchCaseLine hdollar hrule
  have htrimmed' : IsTrimmed (matchCaseLine line) := by
    have htrim := IsTrimmed.append htrimmed (t := '$' :: "match-case".toList) (by decide) hempty
      (by decide) []
    rwa [List.append_nil] at htrim
  refine ⟨Pattern.compile pattern true, ?_, ?_, ?_⟩
  · rw [read_eq_rule_iff, htrimmed'.trim_eq]
    refine ⟨by simp [matchCaseLine], ?_, splitHide_matchCaseLine hhide, hrule'⟩
    obtain ⟨c, rest, rfl⟩ := List.exists_cons_of_ne_nil hempty
    exact hcomment
  · rw [hpattern, ← String.ofList_toList (s := pattern), Bool.eq_iff_iff,
      Pattern.isLiteral_compile, Pattern.isLiteral_compile]
  · intro request hlong hkelvin hmatch
    rw [hpattern]
    exact Pattern.isMatch_of_matchCase hlong hkelvin hmatch

end

/-- An exception that ends in a separator. -/
theorem read_matchCaseLine_exception :
    ∃ r, IsTrimmed "@@-Ads^".toList ∧ '$' ∉ "@@-Ads^".toList ∧
      read "@@-Ads^".toList = .ok (.rule r) ∧
      (∃ narrow, read "@@-Ads^$match-case".toList = .ok (.rule narrow) ∧
        narrow.keyword = r.keyword ∧ narrow.pattern.isMatch "http://x.test/-Ads/" = true) ∧
      r.pattern.isMatch "http://x.test/-Ads/" = true := by
  have htrimmed : IsTrimmed "@@-Ads^".toList := by decide
  have hdollar : '$' ∉ "@@-Ads^".toList := by decide
  have hread : read "@@-Ads^".toList = .ok (.rule (ruleOf "@@-Ads^".toList "-Ads^" {})) := by
    rfl
  obtain ⟨pattern, hread', -, hnarrow⟩ := read_matchCaseLine htrimmed hdollar hread
  have hpattern : pattern = Pattern.compile "-Ads^" true := by
    have hnarrowed : read "@@-Ads^$match-case".toList =
        .ok (.rule (ruleOf "@@-Ads^$match-case".toList "-Ads^" { matchCase := true })) := by
      rfl
    exact congrArg Rule.pattern (Item.rule.inj (Except.ok.inj (hread'.symm.trans hnarrowed)))
  have hmatch : pattern.isMatch "http://x.test/-Ads/" = true := by
    rw [hpattern]
    decide +kernel
  exact ⟨_, htrimmed, hdollar, hread, ⟨_, hread', rfl, hmatch⟩,
    hnarrow "http://x.test/-Ads/" (by decide) (by decide) hmatch⟩

end FilterLine

end AdFilter
