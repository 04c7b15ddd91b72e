import AdFilter.Fingerprint
import AdFilter.Proofs.Text.Utf8

/-!
# What a fingerprint finds

The search for a text with rolling hashes finds it exactly where it occurs. The invariant of the
search is that the running value is the hash of the window at hand (`AtWindow`), so the window that
holds the text is not passed over; all others are turned down byte by byte. Bytes of a text occur
where its characters do, so it makes no difference that the search looks at bytes
(`occursIn_ofString`).
-/

namespace AdFilter.Fingerprint

theorem hashBytes_take_slide {n : Nat} {old new : UInt8} {window rest : List UInt8}
    (hrest : new :: rest = (old :: window).drop (n + 1)) :
    push (hashBytes ((old :: window).take (n + 1))) new - base ^ (n + 1) * old.toUInt32 =
      hashBytes (window.take (n + 1)) := by
  rw [List.drop_succ_cons] at hrest
  have hnew : window[n]? = some new := by
    rw [← List.head?_drop, ← hrest, List.head?_cons]
  have hlen : (window.take n).length = n := by
    have := (List.getElem?_eq_some_iff.1 hnew).1
    simp; omega
  have hslide := hashBytes_slide old new (window.take n)
  rw [hlen] at hslide
  rw [List.take_succ_cons, hslide, List.take_add_one, hnew, Option.toList_some]

/-- What a scan for `n` bytes relies on: `hash` is the hash of the window at the head of `window`, and
`rest` is the text behind it. -/
structure AtWindow (n : Nat) (hash : UInt32) (rest window : List UInt8) : Prop where
  le_length : n ≤ window.length
  rest_eq : rest = window.drop n
  hash_eq : hash = hashBytes (window.take n)

/-- One step of a scan keeps what it relies on. -/
theorem AtWindow.slide {n : Nat} {hash : UInt32} {old new : UInt8} {window rest : List UInt8}
    (h : AtWindow n hash (new :: rest) (old :: window)) :
    AtWindow n (push hash new - base ^ n * old.toUInt32) rest window where
  le_length := by
    have := congrArg List.length h.rest_eq
    simp at this
    omega
  rest_eq := by
    have htail := congrArg List.tail h.rest_eq
    rwa [List.tail_cons, List.tail_drop, List.drop_succ_cons] at htail
  hash_eq := by
    have hrest := h.rest_eq
    rw [h.hash_eq]
    cases n with
    | zero =>
      -- an empty window takes in the byte that it takes out
      obtain ⟨rfl, rfl⟩ := List.cons.inj hrest
      simp [push, hashBytes]
    | succ n => exact hashBytes_take_slide hrest

section
variable {f : Fingerprint} {needle : List UInt8}

theorem head_iff (hf : f.hash = hashBytes needle) {hash : UInt32} {window : List UInt8}
    (hhash : hash = hashBytes (window.take needle.length)) :
    (hash == f.hash && needle.isPrefixOf window) = true ↔ needle <+: window := by
  constructor
  · intro h
    exact List.isPrefixOf_iff_prefix.1 (Bool.and_eq_true_iff.1 h).2
  · intro hp
    have htake : window.take needle.length = needle := (List.prefix_iff_eq_take.1 hp).symm
    simp [hp, hhash, hf, htake]

/-- The scan finds the text in the window at the head or in a later one. -/
theorem scan_iff (hf : f.hash = hashBytes needle) (hw : f.weight = base ^ needle.length)
    {hash : UInt32} {rest window : List UInt8} (h : AtWindow needle.length hash rest window) :
    scan f needle hash rest window = true ↔ needle <:+: window := by
  induction rest generalizing hash window with
  | nil =>
    have hwindow : needle.length = window.length :=
      Nat.le_antisymm h.le_length (List.drop_eq_nil_iff.1 h.rest_eq.symm)
    rw [scan, head_iff hf h.hash_eq]
    constructor
    · exact List.IsPrefix.isInfix
    · intro hinfix
      exact hinfix.eq_of_length hwindow ▸ List.prefix_rfl
  | cons new rest ih =>
    cases window with
    | nil =>
      have hrest := h.rest_eq
      simp at hrest
    | cons old window =>
      rw [scan, Bool.or_eq_true, head_iff hf h.hash_eq, List.infix_cons_iff, hw]
      exact or_congr_right (ih h.slide)

end

theorem occursIn_ofString_iff_bytes (needle text : String) :
    (ofString needle).occursIn (Text.utf8 text.toList) = true ↔
      Text.utf8 needle.toList <:+: Text.utf8 text.toList := by
  rw [occursIn]
  simp only [Bool.and_eq_true, decide_eq_true_eq]
  constructor
  · rintro ⟨hlen, hscan⟩
    exact (scan_iff rfl (weightOf_eq _) ⟨hlen, rfl, rfl⟩).1 hscan
  · intro h
    exact ⟨h.length_le, (scan_iff rfl (weightOf_eq _) ⟨h.length_le, rfl, rfl⟩).2 h⟩

theorem occursIn_ofString (needle text : String) :
    (ofString needle).occursIn (Text.utf8 text.toList) = true ↔
      needle.toList <:+: text.toList := by
  rw [occursIn_ofString_iff_bytes, Text.utf8_infix_iff]

/-- A text is found in another exactly if the other is some text, that text, and some text again. To
compare them as bytes gives the same answer. -/
theorem occursIn_iff_exists_append (needle text : String) :
    ((ofString needle).occursIn (Text.utf8 text.toList) = true ↔
      ∃ a b : String, text = a ++ needle ++ b) ∧
    ((ofString needle).occursIn (Text.utf8 text.toList) = true ↔
      ∃ a b : ByteArray, text.toByteArray = a ++ needle.toByteArray ++ b) := by
  constructor
  · rw [occursIn_ofString]
    constructor
    · rintro ⟨a, b, h⟩
      refine ⟨String.ofList a, String.ofList b, String.toList_injective ?_⟩
      simp [h]
    · rintro ⟨a, b, rfl⟩
      exact ⟨a.toList, b.toList, by simp⟩
  · rw [occursIn_ofString_iff_bytes, Text.utf8_toList, Text.utf8_toList]
    constructor
    · rintro ⟨a, b, h⟩
      refine ⟨a.toByteArray, b.toByteArray, ByteArray.ext (Array.toList_inj.1 ?_)⟩
      simp [← h]
    · rintro ⟨a, b, h⟩
      exact ⟨a.data.toList, b.data.toList, by simp [h]⟩

/-- The text may stand in several places, and they may overlap. -/
example : (ofString "aba").occursIn (Text.utf8 "xababa".toList) = true := by
  decide +kernel

end AdFilter.Fingerprint
