import AdFilter.Text.Printable

/-!
# Quoted text

A text in double quotes that can be read without doubt: the quote, the backslash and the usual
control characters have short escapes, and every other character that cannot be shown on its own
is given by its code point. `quotedPieces` is the same text in the pieces in which it is written
(`flatten_quotedPieces`).
-/

namespace AdFilter.Text

/-- The escape `\u{…}` of a character, in lower-case hexadecimal digits without padding. -/
def escapeCode (c : Char) : List Char :=
  ['\\', 'u', '\x7b'] ++ Nat.toDigits 16 c.toNat ++ ['\x7d']

def escapeQuoted (c : Char) : List Char :=
  match c with
  | '\x00' => ['\\', '0']
  | '\t' => ['\\', 't']
  | '\r' => ['\\', 'r']
  | '\n' => ['\\', 'n']
  | '"' => ['\\', '"']
  | '\\' => ['\\', '\\']
  | c => if isExtender c || !isPrintable c then escapeCode c else [c]

def quotedChars (s : List Char) : List Char :=
  '"' :: s.flatMap escapeQuoted ++ ['"']

def quoted (s : String) : String :=
  String.ofList (quotedChars s.toList)

/-! ## Pieces -/

/-- What stands between the quotes, cut into escapes and the runs of characters before, between and
behind them. -/
def escapedPieces (s : List Char) : List (List Char) :=
  s.foldr (fun c pieces =>
    if escapeQuoted c = [c] then pieces.modifyHead (c :: ·)
    else [] :: escapeQuoted c :: pieces) [[]]

theorem escapedPieces_cons (c : Char) (s : List Char) :
    escapedPieces (c :: s) =
      if escapeQuoted c = [c] then (escapedPieces s).modifyHead (c :: ·)
      else [] :: escapeQuoted c :: escapedPieces s :=
  rfl

theorem escapedPieces_ne_nil (s : List Char) : escapedPieces s ≠ [] := by
  induction s with
  | nil => simp [escapedPieces]
  | cons c s ih =>
    rw [escapedPieces_cons]
    split
    · cases h : escapedPieces s with
      | nil => exact absurd h ih
      | cons piece pieces => simp
    · simp

theorem flatten_escapedPieces (s : List Char) :
    (escapedPieces s).flatten = s.flatMap escapeQuoted := by
  induction s with
  | nil => rfl
  | cons c s ih =>
    rw [escapedPieces_cons, List.flatMap_cons, ← ih]
    split
    · rename_i hc
      rw [hc]
      cases h : escapedPieces s with
      | nil => exact absurd h (escapedPieces_ne_nil s)
      | cons piece pieces => simp
    · simp

def quotedPieces (s : List Char) : List (List Char) :=
  ['"'] :: escapedPieces s ++ [['"']]

theorem flatten_quotedPieces (s : List Char) : (quotedPieces s).flatten = quotedChars s := by
  simp [quotedPieces, quotedChars, flatten_escapedPieces]

end AdFilter.Text
