import AdFilter.Proofs.Domain
import AdFilter.Proofs.FilterLine
import AdFilter.Proofs.Glob.Keyword

/-!
# Host-anchored patterns

A pattern of two bars, a host name and a separator is found in an address exactly if the name covers
the host of the address as a domain (`search_hostAnchor_iff_covers`). In front of the name stand a
scheme and labels. The scheme is the run of characters up to the first colon. The labels end in a
dot and hold no slash, so they cannot reach behind the host, where digits follow, and then a slash.
-/

namespace AdFilter

/-- What may stand behind the host in an address: a port, and a path. -/
def IsAddressTail (tail : List Char) : Prop :=
  ∃ port path, tail = port ++ path ∧
    (port = [] ∨ ∃ digits, port = ':' :: digits ∧ ∀ c ∈ digits, c.isDigit = true) ∧
    (path = [] ∨ ∃ rest, path = '/' :: rest)

namespace Glob

/-! ## The pattern -/

theorem consumes_chars_caseless_iff {part before mid after : List Char} :
    Consumes false (part.map Piece.char) before mid after ↔
      mid.map Text.fold = part.map Text.fold := by
  refine ⟨fun h => (eq_of_consumes_chars h).1, fun h => consumes_chars_iff.2 ?_⟩
  rw [← List.forall₂_eq_eq_eq, List.forall₂_map_left_iff, List.forall₂_map_right_iff] at h
  exact h.imp fun d c hfold => .inr ⟨rfl, hfold⟩

theorem laterPieces_append_separator {name : List Char} (h : ∀ c ∈ name, isSpecial c = false) :
    laterPieces (name ++ ['^']) = name.map Piece.char ++ [.separator false true] := by
  induction name with
  | nil => rfl
  | cons c name ih =>
    obtain ⟨hc, hname⟩ := List.forall_mem_cons.1 h
    rw [List.cons_append, laterPieces, piece_of_not_isSpecial hc, ih hname, List.map_cons,
      List.cons_append]

def hostAnchor (name : List Char) : List Char :=
  '|' :: '|' :: (name ++ ['^'])

/-- The text starts with a separator, if it is not empty. -/
def IsCut (rest : List Char) : Prop :=
  ∀ c ∈ rest.head?, IsSeparator false c

theorem consumes_hostAnchor_iff {name : List Char} (h : ∀ c ∈ name, isSpecial c = false)
    {before mid after : List Char} :
    Consumes false (pieces (hostAnchor name)) before mid after ↔
      before = [] ∧ ∃ lead middle stop, mid = lead ++ (middle ++ stop) ∧ IsHostLead lead ∧
        middle.map Text.fold = name.map Text.fold ∧
        (Piece.separator false true).Consumes false (lead ++ middle) stop after := by
  have hpieces : pieces (hostAnchor name) = .bar true false :: .hostBar false ::
      (name.map Piece.char ++ [.separator false true]) := by
    rw [hostAnchor, pieces, laterPieces_append_separator h]
    simp
  rw [hpieces]
  simp only [Consumes, consumes_append_iff, Regex.Then, consumes_chars_caseless_iff]
  constructor
  · rintro ⟨_, _, rfl, ⟨rfl, hstart, -⟩, lead, _, rfl, ⟨hlead, -⟩, middle, _, rfl, hmiddle,
      stop, _, rfl, hstop, rfl⟩
    obtain rfl := hstart rfl
    exact ⟨rfl, lead, middle, stop, by simp, hlead, hmiddle, by simpa using hstop⟩
  · rintro ⟨rfl, lead, middle, stop, rfl, hlead, hmiddle, hstop⟩
    exact ⟨[], _, rfl, ⟨rfl, fun _ => rfl, by simp⟩, lead, _, rfl, ⟨hlead, by simp⟩, middle, stop,
      rfl, hmiddle, stop, [], by simp, by simpa using hstop, rfl⟩

/-- The pattern is found where a lead and the name stand at the start, cut off from what follows. -/
theorem search_hostAnchor_iff {name : List Char} (h : ∀ c ∈ name, isSpecial c = false)
    {text : List Char} :
    (∃ before mid after, text = before ++ mid ++ after ∧
        Consumes false (pieces (hostAnchor name)) before mid after) ↔
      ∃ lead middle rest, text = lead ++ (middle ++ rest) ∧ IsHostLead lead ∧
        middle.map Text.fold = name.map Text.fold ∧ IsCut rest := by
  simp only [consumes_hostAnchor_iff h, Piece.Consumes]
  constructor
  · rintro ⟨_, _, after, rfl, rfl, lead, middle, stop, rfl, hlead, hmiddle, hstop⟩
    refine ⟨lead, middle, stop ++ after, by simp, hlead, hmiddle, ?_⟩
    rcases hstop with ⟨c, rfl, hc⟩ | ⟨rfl, ⟨hfirst, -⟩ | ⟨-, rfl⟩⟩
    · rintro _ ⟨⟩
      exact hc
    · cases hfirst
    · simp [IsCut]
  · rintro ⟨lead, middle, rest, rfl, hlead, hmiddle, hcut⟩
    cases rest with
    | nil =>
      exact ⟨[], _, [], by simp, rfl, lead, middle, [], rfl, hlead, hmiddle,
        .inr ⟨rfl, .inr ⟨trivial, rfl⟩⟩⟩
    | cons c rest =>
      exact ⟨[], lead ++ (middle ++ [c]), rest, by simp, rfl, lead, middle, [c], rfl, hlead,
        hmiddle, .inl ⟨c, rfl, hcut c rfl⟩⟩

/-! ## The address -/

theorem not_isSeparator_of_fold_eq {c d : Char} (hd : IsPlain d)
    (h : Text.fold c = Text.fold d) : ¬IsSeparator false c := fun hc =>
  hc d hd (.inr ⟨rfl, h⟩)

theorem not_isSpecial_of_isPlain {c : Char} (h : IsPlain c) : isSpecial c = false :=
  not_isSpecial_of (p := IsPlain) (by decide) h

theorem isPlain_of_isHostName {host : List Char} (h : IsHostName host) :
    ∀ c ∈ host, IsPlain c := by
  intro c hc
  rcases h.isHostChar_or_dot c hc with hchar | rfl
  · simp only [isHostChar, Bool.or_eq_true, beq_iff_eq] at hchar
    rcases hchar with (halnum | rfl) | rfl
    · exact .inl halnum
    · exact .inr (by simp)
    · exact .inr (by simp)
  · exact .inr (by simp)

theorem isCut_of_isAddressTail {tail : List Char} (h : IsAddressTail tail) : IsCut tail := by
  have hcolon : IsSeparator false ':' := isSeparator_iff.2 (by decide)
  have hslash : IsSeparator false '/' := isSeparator_iff.2 (by decide)
  obtain ⟨_, _, rfl, rfl | ⟨digits, rfl, -⟩, hpath⟩ := h
  · rcases hpath with rfl | ⟨rest, rfl⟩
    · simp [IsCut]
    · rintro _ ⟨⟩
      exact hslash
  · rintro _ ⟨⟩
    exact hcolon

/-- A dot behind the host stands behind a slash. -/
theorem slash_mem_of_dot_mem {front rest : List Char} (h : IsAddressTail (front ++ rest))
    (hdot : '.' ∈ front) : '/' ∈ front := by
  obtain ⟨port, path, heq, hport, hpath⟩ := h
  have hport : '.' ∉ port := by
    rcases hport with rfl | ⟨digits, rfl, hdigits⟩
    · simp
    · intro hmem
      rcases List.mem_cons.1 hmem with hcolon | hmem
      · exact absurd hcolon (by decide)
      · exact absurd (hdigits '.' hmem) (by decide)
  rcases List.append_eq_append_iff.1 heq with ⟨others, rfl, -⟩ | ⟨others, rfl, hothers⟩
  · exact absurd (List.mem_append_left others hdot) hport
  · have hmem : '.' ∈ others := (List.mem_append.1 hdot).resolve_left hport
    rcases hpath with rfl | ⟨path, rfl⟩
    · rw [(List.append_eq_nil_iff.1 hothers.symm).1] at hmem
      cases hmem
    · cases others with
      | nil => cases hmem
      | cons c others =>
        cases hothers
        simp

/-- Labels at the start of host and tail are in the host. -/
theorem labels_prefix {host tail labels rest : List Char} (htail : IsAddressTail tail)
    (hlabels : labels = [] ∨ ∃ inner, labels = inner ++ ['.'] ∧ inner ≠ [] ∧ '/' ∉ inner)
    (h : host ++ tail = labels ++ rest) : labels <+: host := by
  rcases List.append_eq_append_iff.1 h with ⟨behind, hbehind, rfl⟩ | ⟨others, rfl, -⟩
  · rcases hlabels with rfl | ⟨inner, rfl, -, hslash⟩
    · exact List.nil_prefix
    · rcases List.eq_nil_or_concat behind with rfl | ⟨front, c, rfl⟩
      · exact ⟨[], by rw [hbehind, List.append_nil, List.append_nil]⟩
      · rw [List.concat_eq_append, ← List.append_assoc] at hbehind
        obtain ⟨rfl, hc⟩ := List.append_inj' hbehind rfl
        cases hc
        have hmem : '/' ∈ front.concat '.' := slash_mem_of_dot_mem htail (by simp)
        have hfront : '/' ∈ front := by simpa using hmem
        exact absurd (List.mem_append_right host hfront) hslash
  · exact List.prefix_append labels others

/-- Labels at the start of host and tail make up the host with the name behind them, if the name is
cut off from the rest. -/
theorem host_eq_append {host tail labels middle rest : List Char} (hhost : IsHostName host)
    (htail : IsAddressTail tail)
    (hlabels : labels = [] ∨ ∃ inner, labels = inner ++ ['.'] ∧ inner ≠ [] ∧ '/' ∉ inner)
    (hmiddle : ∀ c ∈ middle, ¬IsSeparator false c) (hcut : IsCut rest)
    (h : host ++ tail = labels ++ (middle ++ rest)) : host = labels ++ middle := by
  obtain ⟨others, rfl⟩ := labels_prefix htail hlabels h
  rw [List.append_assoc, List.append_cancel_left_eq] at h
  have hothers : ∀ c ∈ others, ¬IsSeparator false c := fun c hc =>
    not_isSeparator_of_fold_eq (isPlain_of_isHostName hhost c (List.mem_append_right labels hc)) rfl
  obtain ⟨rfl, -⟩ := Text.run_unique hothers hmiddle
    (fun c hc => not_not_intro (isCut_of_isAddressTail htail c hc))
    (fun c hc => not_not_intro (hcut c hc)) h
  rfl

/-- In an address, a lead and a name that is cut off are read in one way: the lead ends in labels of
the host, and the name is the rest of the host. -/
theorem exists_lead_iff {name host scheme tail : List Char} (hname : ∀ c ∈ name, IsPlain c)
    (hhost : IsHostName host) (hne : scheme ≠ []) (hcolon : ':' ∉ scheme)
    (htail : IsAddressTail tail) :
    (∃ lead middle rest, scheme ++ ':' :: '/' :: '/' :: (host ++ tail) = lead ++ (middle ++ rest) ∧
        IsHostLead lead ∧ middle.map Text.fold = name.map Text.fold ∧ IsCut rest) ↔
      ∃ labels middle, host = labels ++ middle ∧ (labels = [] ∨ ∃ inner, labels = inner ++ ['.']) ∧
        middle.map Text.fold = name.map Text.fold := by
  constructor
  · rintro ⟨_, middle, rest, haddress, ⟨scheme', labels, rfl, -, hcolon', hlabels⟩, hfold, hcut⟩
    have hschemes : scheme ++ ':' :: '/' :: '/' :: (host ++ tail) =
        scheme' ++ ':' :: '/' :: '/' :: (labels ++ (middle ++ rest)) := by
      simpa using haddress
    have hrest : host ++ tail = labels ++ (middle ++ rest) := by
      simpa using (Text.run_unique (p := (· ≠ ':')) (fun c hc e => hcolon (e ▸ hc))
        (fun c hc e => hcolon' (e ▸ hc)) (by simp) (by simp) hschemes).2
    have hmiddle : ∀ c ∈ middle, ¬IsSeparator false c := by
      intro c hc
      have hmem : Text.fold c ∈ name.map Text.fold := hfold ▸ List.mem_map_of_mem hc
      obtain ⟨d, hd, hcd⟩ := List.mem_map.1 hmem
      exact not_isSeparator_of_fold_eq (hname d hd) hcd.symm
    refine ⟨labels, middle, host_eq_append hhost htail hlabels hmiddle hcut hrest, ?_, hfold⟩
    rcases hlabels with rfl | ⟨inner, rfl, -⟩
    · exact .inl rfl
    · exact .inr ⟨inner, rfl⟩
  · rintro ⟨labels, middle, rfl, hlabels, hfold⟩
    refine ⟨scheme ++ [':', '/', '/'] ++ labels, middle, tail, by simp,
      ⟨scheme, labels, rfl, hne, hcolon, ?_⟩, hfold, isCut_of_isAddressTail htail⟩
    rcases hlabels with rfl | ⟨inner, rfl⟩
    · exact .inl rfl
    · refine .inr ⟨inner, rfl, ?_, fun hslash => ?_⟩
      · rintro rfl
        exact hhost.head?_ne_dot rfl
      · have hplain := isPlain_of_isHostName hhost '/' (by simp [hslash])
        exact absurd hplain (by decide)

theorem map_fold_eq_map_toLower {name : List Char} (h : ∀ c ∈ name, IsPlain c) :
    name.map Text.fold = name.map Char.toLower :=
  List.map_congr_left fun c hc => Text.fold_of_ascii (h c hc).ascii

/-- A pattern that is anchored at a host name is found in an address exactly if the name covers the
host of the address. -/
theorem search_hostAnchor_iff_covers {name host scheme tail : List Char} (hname : IsHostName name)
    (hhost : IsHostName host) (hne : scheme ≠ []) (hcolon : ':' ∉ scheme)
    (htail : IsAddressTail tail) {regex : Regex}
    (hregex : regex? (String.ofList (hostAnchor name)) false = some regex) {address : String}
    (haddress : address.toList = scheme ++ ':' :: '/' :: '/' :: (host ++ tail)) :
    regex.search address = true ↔ (Domain.ofChars name).covers (Domain.ofChars host) = true := by
  have hplain := isPlain_of_isHostName hname
  have hspecial : ∀ c ∈ name, isSpecial c = false := fun c hc =>
    not_isSpecial_of_isPlain (hplain c hc)
  rw [search_iff_consumes hregex, String.toList_ofList, haddress, search_hostAnchor_iff hspecial,
    exists_lead_iff hplain hhost hne hcolon htail, Domain.covers_ofChars_iff_append]
  refine exists_congr fun labels => exists_congr fun middle => and_congr_right fun heq =>
    and_congr_right fun _ => ?_
  have hmiddle : ∀ c ∈ middle, IsPlain c := fun c hc =>
    isPlain_of_isHostName hhost c (heq ▸ List.mem_append_right labels hc)
  rw [map_fold_eq_map_toLower hmiddle, map_fold_eq_map_toLower hplain]

end Glob

namespace FilterLine

open Glob (hostAnchor)

theorem read_hostAnchor {name : List Char} (h : IsHostName name) :
    read (hostAnchor name) =
      .ok (.rule (ruleOf (hostAnchor name) (String.ofList (hostAnchor name)) {})) := by
  have hplain := Glob.isPlain_of_isHostName h
  have hchars : ∀ c ∈ hostAnchor name, c = '|' ∨ c = '^' ∨ Glob.IsPlain c := by
    intro c hc
    simp only [hostAnchor, List.mem_cons, List.mem_append, List.not_mem_nil, or_false] at hc
    rcases hc with rfl | rfl | hc | rfl
    · exact .inl rfl
    · exact .inl rfl
    · exact .inr (.inr (hplain c hc))
    · exact .inr (.inl rfl)
  apply read_pattern
  · intro c hc
    rcases hchars c hc with rfl | rfl | hc
    · rfl
    · rfl
    · exact Text.forall_ascii (p := fun c => Glob.IsPlain c → Text.isBlank c = false) (by decide)
        hc.ascii hc
  · exact ⟨fun h => absurd (hchars _ h) (by decide), fun h => absurd (hchars _ h) (by decide),
      fun h => absurd (hchars _ h) (by decide)⟩
  · rfl
  · simp [hostAnchor]
  · simp [degeneratePatterns, hostAnchor, String.ext_iff]
  · have hcount : name.countP (fun c => c == '*' || c == '^') = 0 := by
      rw [List.countP_eq_zero]
      intro c hc
      have hspecial := Glob.not_isSpecial_of_isPlain (hplain c hc)
      simp only [Glob.isSpecial, Bool.or_eq_false_iff] at hspecial
      simp [hspecial]
    simp [Glob.isTooLarge, Glob.sizeLimit, hostAnchor, hcount]

/-- The rule of two bars, a host name and a separator matches an address exactly if the name covers
the host of the address. -/
theorem isMatch_hostAnchor_iff_covers {name : String} (hname : IsHostName name.toList) :
    ∃ r, read ("||" ++ name ++ "^").toList = .ok (.rule r) ∧
      ∀ scheme host tail : String, scheme ≠ "" → ':' ∉ scheme.toList → IsHostName host.toList →
        IsAddressTail tail.toList →
        (r.pattern.isMatch (scheme ++ "://" ++ host ++ tail) = true ↔
          (Domain.ofHost name).covers (Domain.ofHost host) = true) := by
  have hline : ("||" ++ name ++ "^").toList = hostAnchor name.toList := by
    simp [hostAnchor]
  rw [hline, read_hostAnchor hname]
  refine ⟨_, rfl, fun scheme host tail hscheme hcolon hhost htail => ?_⟩
  have hspecial : (String.ofList (hostAnchor name.toList)).toList.any Glob.isSpecial = true := by
    simp [hostAnchor, Glob.isSpecial]
  obtain ⟨regex, hregex⟩ := Glob.exists_regex? hspecial false
  have haddress : (scheme ++ "://" ++ host ++ tail).toList =
      scheme.toList ++ ':' :: '/' :: '/' :: (host.toList ++ tail.toList) := by
    simp
  simp only [ruleOf, Pattern.compile, hregex]
  exact Glob.search_hostAnchor_iff_covers hname hhost (by simpa using hscheme) hcolon htail hregex
    haddress

/-- A host below the name is found, with a port behind it. A host that only ends in the same letters
is not, also if the name stands in the path. -/
theorem isMatch_hostAnchor_iff_covers_ads :
    IsHostName "ads.site.test".toList ∧
      ∃ r, read "||ads.site.test^".toList = .ok (.rule r) ∧
        r.pattern.isMatch "https://x.ADS.site.test:8080/p" = true ∧
        ¬r.pattern.isMatch "http://notads.site.test/.ads.site.test" = true := by
  have hname : IsHostName "ads.site.test".toList := by decide
  obtain ⟨r, hread, hmatch⟩ := isMatch_hostAnchor_iff_covers hname
  have hport : IsAddressTail ":8080/p".toList :=
    ⟨":8080".toList, "/p".toList, rfl, .inr ⟨"8080".toList, rfl, List.all_eq_true.1 rfl⟩,
      .inr ⟨['p'], rfl⟩⟩
  have hpath : IsAddressTail "/.ads.site.test".toList :=
    ⟨[], _, rfl, .inl rfl, .inr ⟨".ads.site.test".toList, rfl⟩⟩
  refine ⟨hname, r, hread, ?_, ?_⟩
  · exact (hmatch "https" "x.ADS.site.test" ":8080/p" (by decide) (by decide) (by decide) hport).2
      (by decide)
  · intro h
    have hcovers := (hmatch "http" "notads.site.test" "/.ads.site.test" (by decide) (by decide)
      (by decide) hpath).1 h
    exact absurd hcovers (by decide)

end FilterLine

end AdFilter
