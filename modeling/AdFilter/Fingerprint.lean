import AdFilter.Text.Utf8

/-!
# Fingerprints

A fingerprint is a text together with a polynomial hash of its bytes, made once so that the text
can be looked for in many others. `occursIn` slides a window over the bytes of a text: dropping
one byte and taking in the next updates the hash in constant time (`hashBytes_slide`), and a
window with the right hash is compared byte by byte, so a hash that agrees by accident does no
harm.
-/

namespace AdFilter

/-- A text to look for, the hash of its bytes, and the weight of a byte that leaves a window of
its length. -/
structure Fingerprint where
  literal : String
  hash : UInt32
  weight : UInt32
  deriving DecidableEq, Repr, Hashable

namespace Fingerprint

def base : UInt32 := 16777619

def push (hash : UInt32) (b : UInt8) : UInt32 :=
  hash * base + b.toUInt32

def hashBytes (bs : List UInt8) : UInt32 :=
  bs.foldl push 0

/-- `acc * square ^ n`, by repeated squaring. -/
def mulPower (acc square : UInt32) (n : Nat) : UInt32 :=
  if n = 0 then acc
  else mulPower (if n % 2 = 1 then acc * square else acc) (square * square) (n / 2)
termination_by n

theorem mulPower_eq (acc square : UInt32) (n : Nat) : mulPower acc square n = acc * square ^ n := by
  fun_induction mulPower acc square n with
  | case1 acc square => simp
  | case2 acc square n hn ih =>
    simp only [dite_eq_ite] at ih
    rw [ih]
    have hs : ∀ k : Nat, (square * square) ^ k = square ^ (2 * k) := by
      intro k
      induction k with
      | zero => simp
      | succ k ihk => rw [UInt32.pow_succ, ihk, Nat.mul_succ, UInt32.pow_succ, UInt32.pow_succ,
          UInt32.mul_assoc]
    rw [hs]
    split
    · rename_i hodd
      have : n = 2 * (n / 2) + 1 := by omega
      conv => rhs; rw [this, UInt32.pow_succ]
      ac_rfl
    · have : n = 2 * (n / 2) := by omega
      conv => rhs; rw [this]

/-- The weight of a byte that `n` bytes follow. -/
def weightOf (n : Nat) : UInt32 :=
  mulPower 1 base n

theorem weightOf_eq (n : Nat) : weightOf n = base ^ n := by
  simp [weightOf, mulPower_eq]

def ofString (literal : String) : Fingerprint :=
  let bytes := Text.utf8 literal.toList
  { literal, hash := hashBytes bytes, weight := weightOf bytes.length }

/-- The length of the text in bytes. -/
def size (f : Fingerprint) : Nat :=
  (Text.utf8 f.literal.toList).length

theorem foldl_push (h : UInt32) (bs : List UInt8) :
    bs.foldl push h = h * base ^ bs.length + hashBytes bs := by
  induction bs generalizing h with
  | nil => simp [hashBytes]
  | cons b bs ih =>
    have h0 : hashBytes (b :: bs) = b.toUInt32 * base ^ bs.length + hashBytes bs := by
      rw [hashBytes, List.foldl_cons, ih]
      simp [push]
    rw [List.foldl_cons, ih, h0, List.length_cons, UInt32.pow_succ, push, UInt32.add_mul,
      UInt32.mul_assoc, UInt32.mul_comm base, UInt32.add_assoc]

theorem hashBytes_cons (b : UInt8) (bs : List UInt8) :
    hashBytes (b :: bs) = b.toUInt32 * base ^ bs.length + hashBytes bs := by
  rw [hashBytes, List.foldl_cons, foldl_push]
  simp [push]

/-- Moving a window by one byte: take the new byte in, take the old one out. -/
theorem hashBytes_slide (old new : UInt8) (bs : List UInt8) :
    push (hashBytes (old :: bs)) new - base ^ (bs.length + 1) * old.toUInt32 =
      hashBytes (bs ++ [new]) := by
  have hnew : hashBytes (bs ++ [new]) = push (hashBytes bs) new := by
    simp [hashBytes, List.foldl_append]
  have hw : old.toUInt32 * base ^ bs.length * base = base ^ (bs.length + 1) * old.toUInt32 := by
    rw [UInt32.pow_succ]; ac_rfl
  rw [hashBytes_cons, hnew, push, push, UInt32.add_mul, hw, UInt32.add_assoc, UInt32.add_comm,
    UInt32.add_sub_cancel]

/-- Looks for `needle` in the window at the head of `window`, whose hash is `hash`, and in all
windows after it. `rest` is the text behind the window. -/
def scan (f : Fingerprint) (needle : List UInt8) (hash : UInt32) :
    (rest window : List UInt8) → Bool
  | [], window => hash == f.hash && needle.isPrefixOf window
  | new :: rest, window =>
    (hash == f.hash && needle.isPrefixOf window) ||
      match window with
      | [] => false
      | old :: window => scan f needle (push hash new - f.weight * old.toUInt32) rest window

/-- Whether the text of the fingerprint occurs in a text, given as bytes. -/
def occursIn (f : Fingerprint) (text : List UInt8) : Bool :=
  let needle := Text.utf8 f.literal.toList
  needle.length ≤ text.length &&
    scan f needle (hashBytes (text.take needle.length)) (text.drop needle.length) text

end Fingerprint

end AdFilter
