import AdFilter.Proofs.Domain
import AdFilter.Proofs.Text.Fields

/-!
# The order of domains

Domains are ordered by what they cover, and those that cover the same host are a chain, since the
labels of each are the first labels of the host. On texts the order is to be what another text ends
with, at a dot (`covers_laws`). The labels that come from a text are those without dots and upper
case (`ofHost_toString_iff`); these are read back from the text that they are written as.
-/

namespace AdFilter.Domain

/-! ## Domains and their texts -/

/-- There is a label, and no label has a dot or a letter in upper case. -/
structure IsNormal (d : Domain) : Prop where
  ne_nil : d.labels ≠ []
  dot_not_mem : ∀ label ∈ d.labels, '.' ∉ label.toList
  lower : ∀ label ∈ d.labels, label.toLower = label

theorem isNormal_ofHost (host : String) : (ofHost host).IsNormal := by
  have hlabel : ∀ label ∈ (ofHost host).labels,
      ∃ piece ∈ Text.split (· == '.') host.toList, label.toList = piece.map Char.toLower := by
    intro label hmem
    rw [ofHost, ofChars, List.mem_reverse, List.mem_map] at hmem
    obtain ⟨piece, hpiece, rfl⟩ := hmem
    exact ⟨piece, hpiece, String.toList_ofList⟩
  constructor
  · simp [ofHost, ofChars, Text.split_ne_nil]
  · intro label hmem hdot
    obtain ⟨piece, hpiece, heq⟩ := hlabel label hmem
    rw [heq] at hdot
    obtain ⟨c, hc, hcdot⟩ := List.mem_map.1 hdot
    obtain rfl : c = '.' := (Text.toLower_eq_iff rfl).1 hcdot
    exact Text.not_mem_of_mem_split hpiece hc
  · intro label hmem
    obtain ⟨piece, -, heq⟩ := hlabel label hmem
    rw [← String.toList_inj, Text.toList_toLower, heq, List.map_map]
    exact List.map_congr_left fun c _ => Text.toLower_toLower c

theorem toString_ofHost (host : String) : toString (ofHost host) = host.toLower := by
  rw [← String.toList_inj, ofHost, toList_toString_ofChars, Text.toList_toLower]

/-- A domain is read back from what it is written as, if a text can be read as it at all. -/
theorem ofHost_toString_iff {d : Domain} : ofHost (toString d) = d ↔ d.IsNormal := by
  constructor
  · intro h
    rw [← h]
    exact isNormal_ofHost _
  · intro h
    have htext : (toString d).toList = ['.'].intercalate (d.labels.reverse.map String.toList) :=
      String.toList_intercalate
    have hsplit : Text.split (· == '.') (toString d).toList =
        d.labels.reverse.map String.toList := by
      rw [htext]
      refine Text.split_intercalate (by simpa using h.ne_nil) ?_
      simpa using h.dot_not_mem
    have hlower : (d.labels.reverse.map String.toList).map
        (fun label => String.ofList (label.map Char.toLower)) = d.labels.reverse := by
      rw [List.map_map]
      refine (List.map_congr_left fun label hmem => ?_).trans (List.map_id _)
      show String.ofList (label.toList.map Char.toLower) = label
      rw [← String.toList_map, String.ofList_toList]
      exact h.lower label (List.mem_reverse.1 hmem)
    rw [ofHost, ofChars, Domain.mk.injEq, hsplit, hlower, List.reverse_reverse]

/-! ## The order -/

section
variable {d e f : Domain}

theorem covers_refl (d : Domain) : d.covers d = true :=
  covers_iff.2 (List.prefix_refl _)

theorem covers_trans (hde : d.covers e = true) (hef : e.covers f = true) : d.covers f = true :=
  covers_iff.2 ((covers_iff.1 hde).trans (covers_iff.1 hef))

theorem covers_antisymm (hde : d.covers e = true) (hed : e.covers d = true) : d = e := by
  rw [Domain.mk.injEq]
  exact (covers_iff.1 hde).eq_of_length_le (covers_iff.1 hed).length_le

theorem covers_or_covers (hd : d.covers f = true) (he : e.covers f = true) :
    d.covers e = true ∨ e.covers d = true := by
  rw [covers_iff, covers_iff]
  exact List.prefix_or_prefix_of_prefix (covers_iff.1 hd) (covers_iff.1 he)

end

theorem covers_ofHost_iff {a b : String} :
    (ofHost a).covers (ofHost b) = true ↔
      b.toLower = a.toLower ∨ ∃ front, b.toLower = front ++ "." ++ a.toLower := by
  have hdot : ".".toList = ['.'] := rfl
  simp only [← String.toList_inj, String.toList_append, Text.toList_toLower, hdot]
  rw [ofHost, ofHost, covers_ofChars_iff]
  refine or_congr eq_comm ⟨?_, ?_⟩
  · rintro ⟨front, hfront⟩
    exact ⟨String.ofList front, by simp [← hfront]⟩
  · rintro ⟨front, hfront⟩
    exact ⟨front.toList, by simp [hfront]⟩

/-- What a domain covers, how it is written, and that to cover is an order in which the domains above
a host are a chain. -/
theorem covers_laws :
    (∀ a b : String, (ofHost a).covers (ofHost b) = true ↔
      b.toLower = a.toLower ∨ ∃ front, b.toLower = front ++ "." ++ a.toLower) ∧
    (∀ host : String, toString (ofHost host) = host.toLower) ∧
    (∀ host : String, (ofHost host).IsNormal) ∧
    (∀ d : Domain, ofHost (toString d) = d ↔ d.IsNormal) ∧
    (∀ d : Domain, d.covers d = true) ∧
    (∀ d e f : Domain, d.covers e = true → e.covers f = true → d.covers f = true) ∧
    (∀ d e : Domain, d.covers e = true → e.covers d = true → d = e) ∧
    ∀ d e host : Domain, d.covers host = true → e.covers host = true →
      d.covers e = true ∨ e.covers d = true :=
  ⟨fun _ _ => covers_ofHost_iff, toString_ofHost, isNormal_ofHost, fun _ => ofHost_toString_iff,
    covers_refl, fun _ _ _ => covers_trans, fun _ _ => covers_antisymm,
    fun _ _ _ => covers_or_covers⟩

/-- Empty labels count: the names below the empty one are those that end in a dot. A text that ends
with a name is not below it if the name does not start at a dot. -/
theorem covers_laws_dots :
    (ofHost "").covers (ofHost "x..B.") = true ∧
      ((ofHost ".b.").covers (ofHost "b.") = true ∨ (ofHost "b.").covers (ofHost ".b.") = true) ∧
      ofHost "A.b" = ofHost "a.B" ∧ (ofHost "ample.com").covers (ofHost "example.com") = false := by
  obtain ⟨-, -, -, -, -, htrans, hantisymm, hchain⟩ := covers_laws
  have hbelow : (ofHost "").covers (ofHost "x..B.") = true :=
    htrans _ (ofHost "b.") _ (by decide +kernel) (by decide +kernel)
  have hsame : ofHost "A.b" = ofHost "a.B" :=
    hantisymm _ _ (by decide +kernel) (by decide +kernel)
  exact ⟨hbelow, hchain _ _ (ofHost "x..B.") (by decide +kernel) (by decide +kernel), hsame,
    by decide +kernel⟩

end AdFilter.Domain
