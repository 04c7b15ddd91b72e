import AdFilter.Proofs.Domain
import AdFilter.Proofs.Url.Grammar

/-!
# Hosts of pages and of bare names

The host of a page is what its address is made with (`hostOf_page`). A name that stands alone has no
authority, and so its host is empty (`hostOf_bare`); only as a source it is its own host
(`sourceHost_bare`), like every text without a slash (`sourceHostChars_of_slash_not_mem`).
-/

namespace AdFilter

namespace Url

section
variable {s host : List Char}

theorem HasAuthority.slash_mem {authority : List Char} (h : HasAuthority s authority) : '/' ∈ s := by
  cases h
  simp

theorem sourceHostChars_of_slash_not_mem (h : '/' ∉ s) : sourceHostChars s = s := by
  have hread := hostOutcome_hostChars s
  unfold sourceHostChars
  generalize hostChars s = result at hread ⊢
  cases hread with
  | refused _ => rfl
  | host _ hauthority _ => exact absurd hauthority.slash_mem h
  | noAuthority _ _ => rfl

/-! ## Host names -/

theorem isHostChar_ne {c : Char} (h : isHostChar c = true ∨ c = '.') :
    isHostTextChar c = true ∧ c ≠ ':' := by
  have hascii : c.toNat < 0x80 := by
    simp only [isHostChar, Bool.or_eq_true, beq_iff_eq] at h
    rcases h with ((h | rfl) | rfl) | rfl
    · exact Text.isAlphanum_ascii h
    all_goals decide
  exact Text.forall_ascii (p := fun c => isHostChar c = true ∨ c = '.' →
    isHostTextChar c = true ∧ c ≠ ':') (by decide) hascii h

theorem isHostTextChar_of_isHostName (h : IsHostName host) :
    ∀ c ∈ host, isHostTextChar c = true ∧ c ≠ ':' := fun c hc =>
  isHostChar_ne (h.isHostChar_or_dot c hc)

theorem hostChars_of_isHostName (h : IsHostName host) : hostChars host = some [] := by
  have hchars : ∀ c ∈ host, isControl c = false ∧ endsAuthority c = false ∧ c ≠ ':' := by
    intro c hc
    obtain ⟨hchar, hcolon⟩ := isHostTextChar_of_isHostName h c hc
    obtain ⟨hcontrol, hends, -⟩ := isHostTextChar_iff.1 hchar
    exact ⟨hcontrol, hends, hcolon⟩
  have hnone : ∀ authority, ¬HasAuthority host authority := fun _ hauthority =>
    absurd (hchars _ hauthority.slash_mem).2.1 (by decide)
  have hscheme : splitScheme host ≠ none := by
    intro hbad
    obtain ⟨-, hcut, -, -, -⟩ := splitScheme_eq_none_iff.1 hbad
    exact (hchars ':' (by simp [hcut])).2.2 rfl
  refine hostChars_of_noAuthority (not_isRefused (fun c hc => (hchars c hc).1) hscheme ?_) hnone
  exact fun _ hauthority => absurd hauthority (hnone _)

/-! ## Ports -/

/-- What can stand behind the name of a host: nothing, or a colon and digits. -/
inductive IsPort : List Char → Prop where
  | none : IsPort []
  | digits {digits : List Char} : (∀ c ∈ digits, c.isDigit = true) → IsPort (':' :: digits)

theorem IsPort.isHostTextChar {port : List Char} (h : IsPort port) :
    ∀ c ∈ port, isHostTextChar c = true := by
  cases h with
  | none => simp
  | digits hdigits =>
    refine List.forall_mem_cons.2 ⟨by decide, fun c hc => (isHostChar_ne (.inl ?_)).1⟩
    simp [isHostChar, Char.isAlphanum, hdigits c hc]

theorem stripPort_append (h : IsHostName host) {port : List Char} (hport : IsPort port) :
    stripPort (host ++ port) = host := by
  have hchars := isHostTextChar_of_isHostName h
  have hbracket : (host ++ port).head? ≠ some '[' := by
    obtain ⟨c, rest, rfl⟩ := List.exists_cons_of_ne_nil h.ne_nil
    rintro ⟨⟩
    exact absurd (h.isHostChar_or_dot '[' List.mem_cons_self) (by decide)
  rw [stripPort, if_neg hbracket]
  cases hport with
  | none =>
    rw [List.append_nil]
    split
    · next name hname =>
      have hmem : ':' ∈ host.reverse.dropWhile Char.isDigit := by simp [hname]
      exact absurd rfl (hchars _ (List.mem_reverse.1 ((List.dropWhile_sublist _).mem hmem))).2
    · rfl
  | digits hdigits =>
    rw [List.reverse_append, List.reverse_cons, List.append_assoc,
      List.dropWhile_append_of_pos fun c hc => hdigits c (List.mem_reverse.1 hc)]
    exact List.reverse_reverse host

theorem mem_of_mem_stripPort {c : Char} (h : c ∈ stripPort host) : c ∈ host := by
  unfold stripPort at h
  split at h
  · exact h
  · split at h
    · next name hname =>
      refine List.mem_reverse.1 ((List.dropWhile_sublist Char.isDigit).mem ?_)
      rw [hname]
      exact List.mem_cons_of_mem _ (List.mem_reverse.1 h)
    · exact h

/-! ## Hosts of sources -/

theorem HasAuthority.not_endsAuthority {authority : List Char} (h : HasAuthority s authority) :
    ∀ c ∈ authority, endsAuthority c = false := by
  cases h with
  | intro _ hauthority _ => exact hauthority

theorem IsHostOf.subset {authority : List Char} (h : IsHostOf authority host) : host ⊆ authority := by
  cases h with
  | all _ => exact List.Subset.refl _
  | behind _ => simp

/-- A source is its own host, or its host is a part of an authority and so holds no slash. -/
theorem sourceHostChars_eq_self_or (s : List Char) :
    sourceHostChars s = s ∨ '/' ∉ sourceHostChars s := by
  have hread := hostOutcome_hostChars s
  unfold sourceHostChars
  generalize hostChars s = result at hread ⊢
  cases hread with
  | refused _ | noAuthority _ _ => exact .inl rfl
  | host _ hauthority hhost =>
    split
    · next heq =>
      cases heq
      refine .inr fun hslash => ?_
      have hends := hauthority.not_endsAuthority _ (hhost.subset (mem_of_mem_stripPort hslash))
      exact absurd hends (by decide)
    · exact .inl rfl

theorem sourceHost_sourceHost (source : String) :
    sourceHost (sourceHost source) = sourceHost source := by
  rw [sourceHost, sourceHost, String.toList_ofList]
  rcases sourceHostChars_eq_self_or source.toList with hself | hslash
  · rw [hself, hself]
  · rw [sourceHostChars_of_slash_not_mem hslash]

/-- The host of a page is the name in its address, without the port. -/
theorem sourceHostChars_of_isAddressOf (h : IsHostName host) {port : List Char} (hport : IsPort port)
    (haddress : IsAddressOf (host ++ port) s) (hcontrol : ∀ c ∈ s, isControl c = false) :
    sourceHostChars s = host := by
  have hchars : ∀ c ∈ host ++ port, isHostTextChar c = true := by
    intro c hc
    rcases List.mem_append.1 hc with hc | hc
    · exact (isHostTextChar_of_isHostName h c hc).1
    · exact hport.isHostTextChar c hc
  rw [sourceHostChars, hostChars_of_isAddressOf haddress hchars hcontrol]
  obtain ⟨c, rest, hcons⟩ :=
    List.exists_cons_of_ne_nil (List.append_ne_nil_of_left_ne_nil h.ne_nil port)
  rw [hcons]
  show stripPort (c :: rest) = host
  rw [← hcons, stripPort_append h hport]

end

/-! ## Pages -/

def page (host : String) : String :=
  "http://" ++ host ++ "/"

theorem isAddressOf_page (host : String) : IsAddressOf host.toList (page host).toList := by
  have hpage : (page host).toList =
      "http".toList ++ ':' :: '/' :: '/' :: ([] ++ host.toList ++ ['/']) := by
    rw [page, String.toList_append, String.toList_append]
    rfl
  rw [hpage]
  exact .intro (by decide) .none (by rintro _ ⟨⟩; decide)

section
variable {host : String} (h : IsHostName host.toList)
include h

theorem not_isControl_page : ∀ c ∈ (page host).toList, isControl c = false := by
  rw [page, String.toList_append, String.toList_append]
  intro c hc
  rcases List.mem_append.1 hc with hc | hc
  · rcases List.mem_append.1 hc with hc | hc
    · exact (by decide : ∀ c ∈ "http://".toList, isControl c = false) c hc
    · exact (isHostTextChar_iff.1 (isHostTextChar_of_isHostName h c hc).1).1
  · exact (by decide : ∀ c ∈ "/".toList, isControl c = false) c hc

theorem hostOf_page : hostOf (page host) = some host := by
  have hchars := fun c hc => (isHostTextChar_of_isHostName h c hc).1
  rw [hostOf, hostChars_of_isAddressOf (isAddressOf_page host) hchars (not_isControl_page h),
    Option.map_some, String.ofList_toList]

theorem hostOf_bare : hostOf host = some "" := by
  rw [hostOf, hostChars_of_isHostName h]
  rfl

theorem sourceHost_page : sourceHost (page host) = host := by
  have haddress : IsAddressOf (host.toList ++ []) (page host).toList :=
    (List.append_nil host.toList).symm ▸ isAddressOf_page host
  rw [sourceHost, sourceHostChars_of_isAddressOf h .none haddress (not_isControl_page h),
    String.ofList_toList]

theorem sourceHost_bare : sourceHost host = host := by
  rw [sourceHost, sourceHostChars, hostChars_of_isHostName h, String.ofList_toList]

end

end Url

end AdFilter
