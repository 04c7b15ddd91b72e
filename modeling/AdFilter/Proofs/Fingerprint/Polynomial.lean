import AdFilter.Proofs.Fingerprint
import Mathlib.Algebra.BigOperators.Fin

/-!
# The arithmetic of fingerprints

The hash of some bytes is their value as digits to the base 16777619, reduced to a word
(`hashBytes_eq`), and so is every running value of the search for its window: `windows` lists these
values, each with the text from its window on, and a search looks at them one after the other
(`occursIn_eq_any_windows`). No step of it rounds or loses anything but multiples of `2 ^ 32`.
-/

namespace AdFilter.Fingerprint

/-- The value of some bytes as digits to the base of the polynomial. The last one has weight one. -/
def polynomial (bs : List UInt8) : Nat :=
  ∑ i : Fin bs.length, bs[i].toNat * 16777619 ^ (bs.length - 1 - i)

theorem polynomial_cons (b : UInt8) (bs : List UInt8) :
    polynomial (b :: bs) = b.toNat * 16777619 ^ bs.length + polynomial bs := by
  have hweight : ∀ i : Fin bs.length, bs.length - (i.succ : Nat) = bs.length - 1 - i := by
    intro i
    simp
    omega
  calc polynomial (b :: bs)
    _ = ∑ i : Fin (bs.length + 1), (b :: bs)[i].toNat * 16777619 ^ (bs.length - i) := rfl
    _ = b.toNat * 16777619 ^ bs.length +
          ∑ i : Fin bs.length, bs[i].toNat * 16777619 ^ (bs.length - (i.succ : Nat)) :=
      Fin.sum_univ_succ _
    _ = b.toNat * 16777619 ^ bs.length + polynomial bs := by simp only [hweight, polynomial]

theorem base_pow (n : Nat) : base ^ n = UInt32.ofNat (16777619 ^ n) := by
  induction n with
  | zero => rfl
  | succ n ih => rw [UInt32.pow_succ, ih, Nat.pow_succ, UInt32.ofNat_mul]; rfl

theorem base_pow_add (m n : Nat) : base ^ (m + n) = base ^ m * base ^ n := by
  rw [base_pow, base_pow, base_pow, Nat.pow_add, UInt32.ofNat_mul]

theorem hashBytes_eq (bs : List UInt8) : hashBytes bs = UInt32.ofNat (polynomial bs) := by
  induction bs with
  | nil => rfl
  | cons b bs ih =>
    have hb : b.toUInt32 = UInt32.ofNat b.toNat := by simp
    rw [hashBytes_cons, ih, hb, base_pow, polynomial_cons, UInt32.ofNat_add, UInt32.ofNat_mul]

theorem hashBytes_append (bs cs : List UInt8) :
    hashBytes (bs ++ cs) = hashBytes bs * base ^ cs.length + hashBytes cs := by
  rw [hashBytes, List.foldl_append, foldl_push]
  rfl

/-! ## The windows of a search -/

/-- The running values of a scan that is not cut short, each with the text from its window on. The
window at hand has the value `hash`, and `rest` is the text behind it. -/
def slides (f : Fingerprint) (hash : UInt32) :
    (rest window : List UInt8) → List (UInt32 × List UInt8)
  | [], window => [(hash, window)]
  | new :: rest, window =>
    (hash, window) ::
      match window with
      | [] => []
      | old :: window => slides f (push hash new - f.weight * old.toUInt32) rest window

/-- The running values of the search for a fingerprint, each with the text from its window on. There
are none if the text is too short. -/
def windows (f : Fingerprint) (text : List UInt8) : List (UInt32 × List UInt8) :=
  if f.size ≤ text.length then
    slides f (hashBytes (text.take f.size)) (text.drop f.size) text
  else []

theorem scan_eq_any_slides (f : Fingerprint) (needle : List UInt8) (hash : UInt32)
    (rest window : List UInt8) :
    scan f needle hash rest window =
      (slides f hash rest window).any fun (hash, text) =>
        hash == f.hash && needle.isPrefixOf text := by
  induction rest generalizing hash window with
  | nil => simp [scan, slides]
  | cons new rest ih =>
    cases window with
    | nil => simp [scan, slides]
    | cons old window => simp [scan, slides, ih]

theorem occursIn_eq_any_windows (f : Fingerprint) (text : List UInt8) :
    f.occursIn text = (f.windows text).any fun (hash, text) =>
      hash == f.hash && (Text.utf8 f.literal.toList).isPrefixOf text := by
  by_cases h : f.size ≤ text.length
  · have h' : (Text.utf8 f.literal.toList).length ≤ text.length := h
    simp only [occursIn, windows, h, h', decide_true, Bool.true_and, if_true, scan_eq_any_slides]
    rfl
  · have h' : ¬(Text.utf8 f.literal.toList).length ≤ text.length := h
    simp [occursIn, windows, h, h']

/-- What a scan passes through: at step `k`, the hash of the `n` bytes from the `k`-th on. -/
theorem slides_eq {f : Fingerprint} {n : Nat} (hweight : f.weight = base ^ n)
    {hash : UInt32} {rest window : List UInt8} (h : AtWindow n hash rest window) :
    slides f hash rest window =
      (List.range (rest.length + 1)).map fun k =>
        (hashBytes ((window.drop k).take n), window.drop k) := by
  induction rest generalizing hash window with
  | nil => simp [slides, h.hash_eq]
  | cons new rest ih =>
    cases window with
    | nil =>
      have hrest := h.rest_eq
      simp at hrest
    | cons old window =>
      rw [slides, hweight, ih h.slide, h.hash_eq, List.length_cons,
        List.range_succ_eq_map (n := rest.length + 1)]
      simp [Function.comp_def]

theorem windows_eq (f : Fingerprint) (hweight : f.weight = base ^ f.size) (text : List UInt8) :
    f.windows text =
      (List.range (text.length + 1 - f.size)).map fun k =>
        (hashBytes ((text.drop k).take f.size), text.drop k) := by
  by_cases h : f.size ≤ text.length
  · have hcount : (text.drop f.size).length + 1 = text.length + 1 - f.size := by
      simp
      omega
    rw [windows, if_pos h, slides_eq hweight ⟨h, rfl, rfl⟩, hcount]
  · have hcount : text.length + 1 - f.size = 0 := by omega
    rw [windows, if_neg h, hcount]
    rfl

/-! ## Fingerprints of texts -/

theorem size_ofString (p : String) : (ofString p).size = p.utf8ByteSize :=
  Text.length_utf8_toList p

theorem weight_ofString (p : String) : (ofString p).weight = base ^ p.utf8ByteSize := by
  rw [← size_ofString]
  exact weightOf_eq _

theorem hash_ofString (p : String) : (ofString p).hash = hashBytes (Text.utf8 p.toList) :=
  rfl

theorem weightOf_toNat (n : Nat) : (weightOf n).toNat = 16777619 ^ n % 2 ^ 32 := by
  rw [weightOf_eq, base_pow, UInt32.toNat_ofNat']

/-- The hash of a text is the value of its bytes as digits, and its weight the base to the power of
their number, both modulo `2 ^ 32`; so hash and weight of two texts in a row follow from those of the
two. A search looks at the windows of the length of its text from the first to the last, and its
running value is the hash of the window at hand. For no fingerprint does the loop of the search do
anything else than to compare its running values one after the other. -/
theorem hash_laws :
    (∀ p : String,
      (ofString p).hash.toNat = polynomial (Text.utf8 p.toList) % 2 ^ 32 ∧
      (ofString p).weight.toNat = 16777619 ^ p.utf8ByteSize % 2 ^ 32) ∧
    (∀ n : Nat, (weightOf n).toNat = 16777619 ^ n % 2 ^ 32) ∧
    (∀ p q : String,
      (ofString (p ++ q)).weight = (ofString p).weight * (ofString q).weight ∧
      (ofString (p ++ q)).hash =
        (ofString p).hash * (ofString q).weight + (ofString q).hash) ∧
    (∀ (p : String) (text : List UInt8),
      (ofString p).occursIn text = ((ofString p).windows text).any (fun (value, rest) =>
        value == (ofString p).hash && (Text.utf8 p.toList).isPrefixOf rest) ∧
      (ofString p).windows text =
        (List.range (text.length + 1 - p.utf8ByteSize)).map fun k =>
          (UInt32.ofNat (polynomial ((text.drop k).take p.utf8ByteSize)), text.drop k)) ∧
    (∀ (f : Fingerprint) (needle : List UInt8) (hash : UInt32) (rest window : List UInt8),
      scan f needle hash rest window = (slides f hash rest window).any fun (value, text) =>
        value == f.hash && needle.isPrefixOf text) := by
  refine ⟨fun p => ⟨?_, ?_⟩, weightOf_toNat, fun p q => ⟨?_, ?_⟩, fun p text => ⟨?_, ?_⟩,
    scan_eq_any_slides⟩
  · rw [hash_ofString, hashBytes_eq, UInt32.toNat_ofNat']
  · rw [weight_ofString, base_pow, UInt32.toNat_ofNat']
  · rw [weight_ofString, weight_ofString, weight_ofString, String.utf8ByteSize_append,
      base_pow_add]
  · rw [hash_ofString, String.toList_append, Text.utf8_append, hashBytes_append,
      Text.length_utf8_toList, weight_ofString]
    rfl
  · exact occursIn_eq_any_windows _ _
  · rw [windows_eq, size_ofString]
    · simp only [hashBytes_eq]
    · rw [size_ofString, weight_ofString]

end AdFilter.Fingerprint
