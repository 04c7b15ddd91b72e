import AdFilter.Proofs.Text.CaseFold
import AdFilter.Proofs.Text.Split
import AdFilter.Url
import Mathlib.Data.List.TakeWhile

/-!
# What an address consists of

A text has an authority if two slashes stand at its start or behind a scheme and a colon
(`HasAuthority`), and of the authority the host is what stands behind the last `@` (`IsHostOf`).
There are three reasons why no host can be read (`IsRefused`). If none of them is there, a text with
an authority has this host, and any other one has the empty host (`hostOf_grammar`).
-/

namespace AdFilter.Url

/-- What can stand before the two slashes: nothing, or a scheme and a colon. -/
inductive IsLead : List Char → Prop where
  | none : IsLead []
  | scheme {scheme : List Char} : isScheme scheme = true → IsLead (scheme ++ [':'])

/-- The authority stands behind two slashes, and reaches to what ends it or to the end of the
text. -/
inductive HasAuthority : List Char → List Char → Prop where
  | intro {lead authority tail : List Char} : IsLead lead →
      (∀ c ∈ authority, endsAuthority c = false) → (∀ c ∈ tail.head?, endsAuthority c = true) →
      HasAuthority (lead ++ '/' :: '/' :: (authority ++ tail)) authority

/-- The host is what stands behind the last `@`, or everything if there is none. -/
inductive IsHostOf : List Char → List Char → Prop where
  | all {host : List Char} : '@' ∉ host → IsHostOf host host
  | behind {userinfo host : List Char} : '@' ∉ host → IsHostOf (userinfo ++ '@' :: host) host

/-- The text starts with no slashes, and of colons and slashes a colon comes first, but what stands
before it is no scheme. -/
inductive HasBadScheme (s : List Char) : Prop where
  | intro {before after : List Char} : ¬['/', '/'] <+: s → s = before ++ ':' :: after → ':' ∉ before →
      '/' ∉ before → isScheme before = false → HasBadScheme s

/-- Why no host can be read from a text. -/
inductive IsRefused (s : List Char) : Prop where
  | control {c : Char} : c ∈ s → isControl c = true → IsRefused s
  | scheme : HasBadScheme s → IsRefused s
  | space {authority host : List Char} : HasAuthority s authority → IsHostOf authority host →
      ' ' ∈ host → IsRefused s

def isHostTextChar (c : Char) : Bool :=
  !isControl c && !endsAuthority c && c != '@' && c != ' '

theorem isHostTextChar_iff {c : Char} : isHostTextChar c = true ↔
    isControl c = false ∧ endsAuthority c = false ∧ c ≠ '@' ∧ c ≠ ' ' := by
  simp [isHostTextChar, and_assoc]

/-- What can stand before a host: nothing, or a userinfo and an `@`. -/
inductive IsUserPart : List Char → Prop where
  | none : IsUserPart []
  | userinfo {userinfo : List Char} : (∀ c ∈ userinfo, endsAuthority c = false) →
      IsUserPart (userinfo ++ ['@'])

/-- An address with the host, and with all that can stand around a host. -/
inductive IsAddressOf (host : List Char) : List Char → Prop where
  | intro {scheme user tail : List Char} : isScheme scheme = true → IsUserPart user →
      (∀ c ∈ tail.head?, endsAuthority c = true) →
      IsAddressOf host (scheme ++ ':' :: '/' :: '/' :: (user ++ host ++ tail))

/-! ## Schemes -/

section
variable {s scheme rest : List Char}

theorem schemeChar_ne {c : Char}
    (h : (c.isAlphanum || c == '+' || c == '-' || c == '.') = true) :
    isControl c = false ∧ c ≠ ':' ∧ c ≠ '/' := by
  have hascii : c.toNat < 0x80 := by
    simp only [Bool.or_eq_true, beq_iff_eq] at h
    rcases h with ((h | rfl) | rfl) | rfl
    · exact Text.isAlphanum_ascii h
    all_goals decide
  exact Text.forall_ascii (p := fun c => (c.isAlphanum || c == '+' || c == '-' || c == '.') = true →
    isControl c = false ∧ c ≠ ':' ∧ c ≠ '/') (by decide) hascii h

theorem schemeChars_ne (h : isScheme scheme = true) :
    ∀ c ∈ scheme, isControl c = false ∧ c ≠ ':' ∧ c ≠ '/' := by
  cases scheme with
  | nil => simp
  | cons c rest =>
    rw [isScheme, Bool.and_eq_true, List.all_eq_true] at h
    refine List.forall_mem_cons.2 ⟨schemeChar_ne ?_, fun d hd => schemeChar_ne (h.2 d hd)⟩
    simp [Char.isAlphanum, h.1]

/-- Behind the first colon, if no slash comes before it, there is a scheme or nothing can be
read. -/
theorem splitScheme_colon (hslashes : ¬['/', '/'] <+: scheme ++ ':' :: rest) (hcolon : ':' ∉ scheme)
    (hslash : '/' ∉ scheme) : splitScheme (scheme ++ ':' :: rest) =
      if isScheme scheme = true then some (tailOf rest) else none := by
  have hchars : ∀ c ∈ scheme, (c != ':' && c != '/') = true := by
    intro c hc
    have hne : c ≠ ':' ∧ c ≠ '/' := ⟨fun h => hcolon (h ▸ hc), fun h => hslash (h ▸ hc)⟩
    simp [hne]
  unfold splitScheme
  split
  · next rest' heq => exact absurd ⟨rest', heq.symm⟩ hslashes
  · rw [List.dropWhile_append_of_pos hchars, List.takeWhile_append_of_pos hchars]
    simp

theorem splitScheme_scheme (h : isScheme scheme = true) (rest : List Char) :
    splitScheme (scheme ++ ':' :: '/' :: '/' :: rest) = some (.authority rest) := by
  have hslash : '/' ∉ scheme := fun hc => (schemeChars_ne h _ hc).2.2 rfl
  rw [splitScheme_colon ?_ (fun hc => (schemeChars_ne h _ hc).2.1 rfl) hslash, if_pos h]
  · rfl
  · cases scheme with
    | nil => cases h
    | cons c scheme =>
      rw [List.cons_append, List.cons_prefix_cons]
      exact fun hc => hslash (hc.1 ▸ List.mem_cons_self)

theorem splitScheme_lead {lead : List Char} (h : IsLead lead) (rest : List Char) :
    splitScheme (lead ++ '/' :: '/' :: rest) = some (.authority rest) := by
  cases h with
  | none => rfl
  | scheme hscheme =>
    rw [List.append_assoc, List.singleton_append]
    exact splitScheme_scheme hscheme rest

theorem tailOf_eq_authority_iff {s rest : List Char} :
    tailOf s = .authority rest ↔ s = '/' :: '/' :: rest := by
  unfold tailOf
  split
  · simp
  · next hslashes => exact iff_of_false nofun fun h => hslashes rest h

theorem splitScheme_eq_authority_iff :
    splitScheme s = some (.authority rest) ↔
      ∃ lead, IsLead lead ∧ s = lead ++ '/' :: '/' :: rest := by
  constructor
  · intro h
    unfold splitScheme at h
    split at h
    · cases h
      exact ⟨[], .none, rfl⟩
    · split at h
      · next after hdrop =>
        split at h
        · next hscheme =>
          obtain rfl := tailOf_eq_authority_iff.1 (Option.some.inj h)
          refine ⟨_, .scheme hscheme, ?_⟩
          rw [List.append_assoc, List.singleton_append, ← hdrop, List.takeWhile_append_dropWhile]
        · cases h
      · cases h
  · rintro ⟨lead, hlead, rfl⟩
    exact splitScheme_lead hlead rest

theorem splitScheme_eq_none_iff : splitScheme s = none ↔ HasBadScheme s := by
  constructor
  · intro h
    have hbefore : ∀ c ∈ s.takeWhile (fun c => c != ':' && c != '/'), c ≠ ':' ∧ c ≠ '/' := by
      intro c hc
      simpa using List.mem_takeWhile_imp hc
    unfold splitScheme at h
    split at h
    · cases h
    · next hslashes =>
      split at h
      · next after hdrop =>
        split at h
        · cases h
        · next hscheme =>
          have hcut : s = s.takeWhile (fun c => c != ':' && c != '/') ++ ':' :: after := by
            rw [← hdrop, List.takeWhile_append_dropWhile]
          exact .intro (fun ⟨rest, hrest⟩ => hslashes rest hrest.symm) hcut
            (fun hc => (hbefore _ hc).1 rfl) (fun hc => (hbefore _ hc).2 rfl)
            (Bool.eq_false_iff.2 hscheme)
      · cases h
  · rintro ⟨hslashes, rfl, hcolon, hslash, hscheme⟩
    rw [splitScheme_colon hslashes hcolon hslash, if_neg (by simp [hscheme])]

end

/-! ## Authorities and hosts -/

section
variable {s authority host : List Char}

theorem takeWhile_authority {tail : List Char} (hauthority : ∀ c ∈ authority, endsAuthority c = false)
    (htail : ∀ c ∈ tail.head?, endsAuthority c = true) :
    (authority ++ tail).takeWhile (!endsAuthority ·) = authority := by
  rw [List.takeWhile_append_of_pos fun c hc => by simp [hauthority c hc]]
  cases tail with
  | nil => simp
  | cons c tail => simp [htail c rfl]

theorem hasAuthority_iff : HasAuthority s authority ↔
    ∃ rest, splitScheme s = some (.authority rest) ∧
      authority = rest.takeWhile (!endsAuthority ·) := by
  simp only [splitScheme_eq_authority_iff]
  constructor
  · rintro ⟨hlead, hauthority, htail⟩
    exact ⟨_, ⟨_, hlead, rfl⟩, (takeWhile_authority hauthority htail).symm⟩
  · rintro ⟨rest, ⟨lead, hlead, rfl⟩, rfl⟩
    have hauthority : ∀ c ∈ rest.takeWhile (!endsAuthority ·), endsAuthority c = false := by
      intro c hc
      simpa using List.mem_takeWhile_imp hc
    have htail : ∀ c ∈ (rest.dropWhile (!endsAuthority ·)).head?, endsAuthority c = true := by
      intro c hc
      simpa using Text.head?_dropWhile_eq_false rest c hc
    have h := HasAuthority.intro hlead hauthority htail
    rwa [List.takeWhile_append_dropWhile] at h

theorem afterUserinfo_eq_self (h : '@' ∉ host) : afterUserinfo host = host := by
  have htake : host.reverse.takeWhile (· != '@') = host.reverse :=
    List.takeWhile_eq_self_iff.2 fun c hc => by
      simpa using fun he : c = '@' => h (he ▸ List.mem_reverse.1 hc)
  rw [afterUserinfo, htake, List.reverse_reverse]

theorem afterUserinfo_behind (h : '@' ∉ host) (userinfo : List Char) :
    afterUserinfo (userinfo ++ '@' :: host) = host := by
  have hchars : ∀ c ∈ host.reverse, (c != '@') = true := fun c hc => by
    simpa using fun he : c = '@' => h (he ▸ List.mem_reverse.1 hc)
  rw [afterUserinfo, List.reverse_append, List.reverse_cons, List.append_assoc,
    List.takeWhile_append_of_pos hchars]
  simp

theorem isHostOf_iff : IsHostOf authority host ↔ afterUserinfo authority = host := by
  constructor
  · rintro (hat | hat)
    · exact afterUserinfo_eq_self hat
    · exact afterUserinfo_behind hat _
  · rintro rfl
    have hat : '@' ∉ afterUserinfo authority := fun hmem => by
      simpa using List.mem_takeWhile_imp (List.mem_reverse.1 hmem)
    have hparts : authority =
        (authority.reverse.dropWhile (· != '@')).reverse ++ afterUserinfo authority := by
      rw [afterUserinfo, ← List.reverse_append, List.takeWhile_append_dropWhile,
        List.reverse_reverse]
    have hnot := Text.head?_dropWhile_eq_false (p := (· != '@')) authority.reverse
    generalize afterUserinfo authority = host at hat hparts ⊢
    cases hdrop : authority.reverse.dropWhile (· != '@') with
    | nil =>
      rw [hdrop] at hparts
      obtain rfl : authority = host := hparts
      exact .all hat
    | cons c userinfo =>
      rw [hdrop] at hnot hparts
      obtain rfl : c = '@' := by simpa using hnot c rfl
      rw [List.reverse_cons, List.append_assoc, List.singleton_append] at hparts
      exact hparts ▸ .behind hat

theorem HasAuthority.unique {authority' : List Char} (h : HasAuthority s authority)
    (h' : HasAuthority s authority') : authority = authority' := by
  obtain ⟨rest, hrest, rfl⟩ := hasAuthority_iff.1 h
  obtain ⟨rest', hrest', rfl⟩ := hasAuthority_iff.1 h'
  rw [hrest] at hrest'
  cases hrest'
  rfl

/-! ## The host of an address -/

/-- What reading the host of a text gives. -/
inductive HostOutcome (s : List Char) : Option (List Char) → Prop where
  | refused : IsRefused s → HostOutcome s none
  | host {authority host : List Char} : ¬IsRefused s → HasAuthority s authority →
      IsHostOf authority host → HostOutcome s (some host)
  | noAuthority : ¬IsRefused s → (∀ authority, ¬HasAuthority s authority) → HostOutcome s (some [])

theorem not_isRefused (hcontrol : ∀ c ∈ s, isControl c = false) (hscheme : splitScheme s ≠ none)
    (hspace : ∀ authority, HasAuthority s authority → ' ' ∉ afterUserinfo authority) :
    ¬IsRefused s := by
  rintro (⟨hc, h⟩ | h | ⟨hauthority, hhost, hmem⟩)
  · exact absurd h (by simp [hcontrol _ hc])
  · exact hscheme (splitScheme_eq_none_iff.2 h)
  · exact hspace _ hauthority (isHostOf_iff.1 hhost ▸ hmem)

theorem hostOutcome_hostChars (s : List Char) : HostOutcome s (hostChars s) := by
  unfold hostChars
  by_cases hcontrol : s.any isControl = true
  · rw [if_pos hcontrol]
    obtain ⟨c, hc, hcontrol⟩ := List.any_eq_true.1 hcontrol
    exact .refused (.control hc hcontrol)
  rw [if_neg hcontrol]
  have hchars : ∀ c ∈ s, isControl c = false := by simpa using hcontrol
  cases hsplit : splitScheme s with
  | none => exact .refused (.scheme (splitScheme_eq_none_iff.1 hsplit))
  | some tail =>
    have hscheme : splitScheme s ≠ none := by simp [hsplit]
    cases tail with
    | noAuthority =>
      have hnone : ∀ authority, ¬HasAuthority s authority := by
        intro authority hauthority
        obtain ⟨rest, hrest, -⟩ := hasAuthority_iff.1 hauthority
        rw [hsplit] at hrest
        cases hrest
      exact .noAuthority (not_isRefused hchars hscheme fun _ h => absurd h (hnone _)) hnone
    | authority rest =>
      have hauthority : HasAuthority s (rest.takeWhile (!endsAuthority ·)) :=
        hasAuthority_iff.2 ⟨rest, hsplit, rfl⟩
      dsimp only
      split
      · next hspace =>
        exact .refused (.space hauthority (isHostOf_iff.2 rfl) (List.contains_iff_mem.1 hspace))
      · next hspace =>
        refine .host (not_isRefused hchars hscheme ?_) hauthority (isHostOf_iff.2 rfl)
        intro authority h hmem
        rw [h.unique hauthority] at hmem
        exact hspace (List.contains_iff_mem.2 hmem)

theorem hostChars_eq_none_iff : hostChars s = none ↔ IsRefused s := by
  have hread := hostOutcome_hostChars s
  generalize hostChars s = result at hread ⊢
  cases hread with
  | refused h => exact iff_of_true rfl h
  | host h _ _ | noAuthority h _ => exact iff_of_false nofun h

theorem hostChars_eq_some_iff (h : ¬IsRefused s) (hauthority : HasAuthority s authority) :
    hostChars s = some host ↔ IsHostOf authority host := by
  have hread := hostOutcome_hostChars s
  generalize hostChars s = result at hread ⊢
  cases hread with
  | refused hrefused => exact absurd hrefused h
  | host _ hauthority' hhost =>
    rw [hauthority.unique hauthority', isHostOf_iff, isHostOf_iff.1 hhost, Option.some_inj]
  | noAuthority _ hnone => exact absurd hauthority (hnone _)

theorem hostChars_of_noAuthority (h : ¬IsRefused s) (hnone : ∀ authority, ¬HasAuthority s authority) :
    hostChars s = some [] := by
  have hread := hostOutcome_hostChars s
  generalize hostChars s = result at hread ⊢
  cases hread with
  | refused hrefused => exact absurd hrefused h
  | host _ hauthority _ => exact absurd hauthority (hnone _)
  | noAuthority _ _ => rfl

theorem hostChars_of_isAddressOf (haddress : IsAddressOf host s)
    (hhost : ∀ c ∈ host, isHostTextChar c = true) (hcontrol : ∀ c ∈ s, isControl c = false) :
    hostChars s = some host := by
  obtain ⟨hscheme, huser, htail⟩ := haddress
  rename_i scheme user tail
  have hchars : ∀ c ∈ host, endsAuthority c = false ∧ c ≠ '@' ∧ c ≠ ' ' := fun c hc =>
    (isHostTextChar_iff.1 (hhost c hc)).2
  have hat : '@' ∉ host := fun hc => (hchars _ hc).2.1 rfl
  have hauthority : HasAuthority (scheme ++ ':' :: '/' :: '/' :: (user ++ host ++ tail))
      (user ++ host) := by
    have hends : ∀ c ∈ user ++ host, endsAuthority c = false := by
      intro c hc
      rcases List.mem_append.1 hc with hc | hc
      · cases huser with
        | none => cases hc
        | userinfo huserinfo =>
          rcases List.mem_append.1 hc with hc | hc
          · exact huserinfo c hc
          · rw [List.mem_singleton.1 hc]
            decide
      · exact (hchars c hc).1
    have h := HasAuthority.intro (.scheme hscheme) hends htail
    rwa [List.append_assoc, List.singleton_append] at h
  have hof : IsHostOf (user ++ host) host := by
    cases huser with
    | none => exact .all hat
    | userinfo _ =>
      rw [List.append_assoc]
      exact .behind hat
  have hrefused : ¬IsRefused (scheme ++ ':' :: '/' :: '/' :: (user ++ host ++ tail)) := by
    refine not_isRefused hcontrol (by simp [splitScheme_scheme hscheme]) ?_
    intro authority h hmem
    rw [h.unique hauthority, isHostOf_iff.1 hof] at hmem
    exact (hchars _ hmem).2.2 rfl
  exact (hostChars_eq_some_iff hrefused hauthority).2 hof

end

/-- No host can be read for the three reasons alone. Otherwise it is that of the authority, or empty
if there is none. -/
theorem hostOf_grammar (url : String) :
    (hostOf url = none ↔ IsRefused url.toList) ∧
    (¬IsRefused url.toList →
      (∀ authority, HasAuthority url.toList authority →
        ∀ host : String, hostOf url = some host ↔ IsHostOf authority host.toList) ∧
      ((∀ authority, ¬HasAuthority url.toList authority) → hostOf url = some "")) ∧
    ∀ host : String, IsAddressOf host.toList url.toList →
      (∀ c ∈ host.toList, isHostTextChar c = true) → (∀ c ∈ url.toList, isControl c = false) →
      hostOf url = some host := by
  have hsome : ∀ host : String, hostOf url = some host ↔ hostChars url.toList = some host.toList := by
    intro host
    rw [hostOf, Option.map_eq_some_iff]
    constructor
    · rintro ⟨chars, hchars, rfl⟩
      rw [hchars, String.toList_ofList]
    · exact fun h => ⟨_, h, String.ofList_toList⟩
  refine ⟨?_, fun h => ⟨fun authority hauthority host => ?_, fun hnone => ?_⟩, ?_⟩
  · rw [hostOf, Option.map_eq_none_iff, hostChars_eq_none_iff]
  · rw [hsome, hostChars_eq_some_iff h hauthority]
  · rw [hsome, hostChars_of_noAuthority h hnone]
    rfl
  · intro host haddress hhost hcontrol
    rw [hsome, hostChars_of_isAddressOf haddress hhost hcontrol]

/-- A host behind a userinfo that holds an `@`, and one with a space. -/
theorem hostOf_grammar_userinfo :
    hostOf "w3+x://a@b:c@Shop.Test:80?x@y" = some "Shop.Test:80" ∧ hostOf "//a@b c/" = none := by
  constructor
  · have haddress : IsAddressOf "Shop.Test:80".toList ("w3+x".toList ++ ':' :: '/' :: '/' ::
        ("a@b:c".toList ++ ['@'] ++ "Shop.Test:80".toList ++ "?x@y".toList)) :=
      .intro (by decide) (.userinfo (by decide)) (by rintro _ ⟨⟩; decide)
    exact (hostOf_grammar _).2.2 _ haddress (by decide) (by decide)
  · have hauthority : HasAuthority ([] ++ '/' :: '/' :: ("a@b c".toList ++ ['/'])) "a@b c".toList :=
      .intro .none (by decide) (by rintro _ ⟨⟩; decide)
    have hhost : IsHostOf ("a".toList ++ '@' :: "b c".toList) "b c".toList := .behind (by decide)
    exact (hostOf_grammar "//a@b c/").1.2 (.space hauthority hhost (by decide))

end AdFilter.Url
