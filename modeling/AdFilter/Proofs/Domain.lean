import AdFilter.Domain
import AdFilter.Proofs.Text.CaseFold
import AdFilter.Proofs.Text.Split

/-!
# Domains as they are written

To cover is said of labels. On texts, a domain covers another if it is the same text but for case,
or what stands at the end of it behind a dot (`Domain.covers_ofChars_iff`), and a domain is read
back from the text that it is written as (`Domain.ofChars_toString_ofChars`). Host names are the texts
whose pieces at the dots are labels (`isHostName_iff`), so no host name starts with a dot.
-/

namespace AdFilter

theorem Text.toLower_beq_dot (c : Char) : (c.toLower == '.') = (c == '.') := by
  rw [Bool.eq_iff_iff, beq_iff_eq, beq_iff_eq, toLower_eq_iff rfl]

namespace Domain

theorem labels_ofChars (host : List Char) :
    (ofChars host).labels =
      ((Text.split (· == '.') (host.map Char.toLower)).map String.ofList).reverse := by
  rw [ofChars, ← Text.map_split (p := (· == '.')) Text.toLower_beq_dot, List.map_map]
  rfl

theorem toList_toString_ofChars (host : List Char) :
    (toString (ofChars host)).toList = host.map Char.toLower := by
  show (".".intercalate (ofChars host).labels.reverse).toList = _
  have hpieces : ∀ pieces : List (List Char), (pieces.map String.ofList).map String.toList = pieces :=
    fun pieces => by simp [Function.comp_def]
  rw [labels_ofChars, List.reverse_reverse, String.toList_intercalate, hpieces]
  exact Text.intercalate_split _

theorem ofChars_toString_ofChars (host : List Char) :
    ofChars (toString (ofChars host)).toList = ofChars host := by
  have hlower : (host.map Char.toLower).map Char.toLower = host.map Char.toLower := by
    rw [List.map_map]
    exact List.map_congr_left fun c _ => Text.toLower_toLower c
  rw [toList_toString_ofChars, Domain.mk.injEq, labels_ofChars, labels_ofChars, hlower]

/-- A domain covers another one if the other is the same, but for case, or ends with it behind a
dot. -/
theorem covers_ofChars_iff {a b : List Char} :
    (ofChars a).covers (ofChars b) = true ↔
      a.map Char.toLower = b.map Char.toLower ∨
        '.' :: a.map Char.toLower <:+ b.map Char.toLower := by
  rw [covers_iff, labels_ofChars, labels_ofChars, List.reverse_prefix, ← Text.split_suffix_iff]
  constructor
  · intro h
    obtain ⟨pieces, hpieces, heq⟩ := List.suffix_map_iff.1 h
    rwa [(List.map_inj_right fun _ _ => String.ofList_injective).1 heq]
  · exact fun h => h.map _

/-- What a domain covers, by what stands in front of it: nothing, or labels and a dot. -/
theorem covers_ofChars_iff_append {a b : List Char} :
    (ofChars a).covers (ofChars b) = true ↔
      ∃ labels name, b = labels ++ name ∧ (labels = [] ∨ ∃ inner, labels = inner ++ ['.']) ∧
        name.map Char.toLower = a.map Char.toLower := by
  rw [covers_ofChars_iff]
  constructor
  · rintro (h | h)
    · exact ⟨[], b, rfl, .inl rfl, h.symm⟩
    · obtain ⟨_, ⟨inner, hinner⟩, hlower⟩ := List.suffix_map_iff.1 h
      obtain ⟨c, name, rfl, hc, hname⟩ := List.map_eq_cons_iff.1 hlower.symm
      obtain rfl : c = '.' := (Text.toLower_eq_iff rfl).1 hc
      exact ⟨inner ++ ['.'], name, by simp [← hinner], .inr ⟨inner, rfl⟩, hname⟩
  · rintro ⟨_, name, rfl, rfl | ⟨inner, rfl⟩, hname⟩
    · exact .inl hname.symm
    · refine .inr ⟨inner.map Char.toLower, ?_⟩
      simp [← hname, show Char.toLower '.' = '.' by decide]

end Domain

/-! ## Host names -/

def isHostChar (c : Char) : Bool :=
  c.isAlphanum || c == '-' || c == '_'

def IsLabel (label : List Char) : Prop :=
  label ≠ [] ∧ label.all isHostChar = true

instance : DecidablePred IsLabel := fun _ =>
  inferInstanceAs (Decidable (_ ∧ _))

theorem IsLabel.isHostChar {label : List Char} (h : IsLabel label) :
    ∀ c ∈ label, isHostChar c = true :=
  List.all_eq_true.1 h.2

theorem IsLabel.split_eq {label : List Char} (h : IsLabel label) :
    Text.split (· == '.') label = [label] :=
  Text.split_of_not_mem fun hdot => absurd (h.isHostChar '.' hdot) (by decide)

/-- One label or more, with dots between them. -/
inductive IsHostName : List Char → Prop where
  | label {label : List Char} : IsLabel label → IsHostName label
  | cons {label host : List Char} : IsLabel label → IsHostName host →
      IsHostName (label ++ '.' :: host)

theorem isHostName_intercalate {labels : List (List Char)} (hne : labels ≠ [])
    (h : ∀ label ∈ labels, IsLabel label) : IsHostName (['.'].intercalate labels) := by
  induction labels with
  | nil => exact absurd rfl hne
  | cons label labels ih =>
    obtain ⟨hlabel, hlabels⟩ := List.forall_mem_cons.1 h
    cases labels with
    | nil =>
      rw [List.intercalate_singleton]
      exact .label hlabel
    | cons label' labels =>
      rw [List.intercalate_cons_cons, List.append_assoc]
      exact .cons hlabel (ih (by simp) hlabels)

theorem isHostName_iff {host : List Char} :
    IsHostName host ↔ ∀ label ∈ Text.split (· == '.') host, IsLabel label := by
  constructor
  · intro h
    induction h with
    | label hlabel => simpa [hlabel.split_eq] using hlabel
    | cons hlabel _ ih =>
      rw [Text.split_append_cons (p := (· == '.')) (beq_self_eq_true '.'), hlabel.split_eq]
      exact List.forall_mem_cons.2 ⟨hlabel, ih⟩
  · intro h
    have hjoin : ['.'].intercalate (Text.split (· == '.') host) = host :=
      Text.intercalate_split host
    rw [← hjoin]
    exact isHostName_intercalate (Text.split_ne_nil _ host) h

instance : DecidablePred IsHostName := fun _ =>
  decidable_of_iff' _ isHostName_iff

theorem IsHostName.ne_nil {host : List Char} (h : IsHostName host) : host ≠ [] := by
  cases h with
  | label hlabel => exact hlabel.1
  | cons _ _ => simp

theorem IsHostName.isHostChar_or_dot {host : List Char} (h : IsHostName host) :
    ∀ c ∈ host, isHostChar c = true ∨ c = '.' := by
  induction h with
  | label hlabel => exact fun c hc => .inl (hlabel.isHostChar c hc)
  | cons hlabel _ ih =>
    intro c hc
    rcases List.mem_append.1 hc with hc | hc
    · exact .inl (hlabel.isHostChar c hc)
    · rcases List.mem_cons.1 hc with rfl | hc
      · exact .inr rfl
      · exact ih c hc

theorem IsLabel.head?_ne_dot {label : List Char} (h : IsLabel label) (rest : List Char) :
    (label ++ rest).head? ≠ some '.' := by
  cases label with
  | nil => exact absurd rfl h.1
  | cons c label =>
    intro hc
    cases hc
    exact absurd (h.isHostChar '.' List.mem_cons_self) (by decide)

theorem IsHostName.head?_ne_dot {host : List Char} (h : IsHostName host) :
    host.head? ≠ some '.' := by
  cases h with
  | label hlabel => simpa using hlabel.head?_ne_dot []
  | cons hlabel _ => exact hlabel.head?_ne_dot _

end AdFilter
