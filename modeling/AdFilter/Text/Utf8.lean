/-!
# UTF-8

`utf8` writes a text as bytes. `decode` reads bytes: every well-formed sequence gives its
character, and every longest piece that could have started one, but does not complete it, gives
`none`. `decodeLossy` puts the replacement character for these pieces, `decode?` refuses them.

Decoding is a machine over single bytes, so that what it makes of a text falls apart at every byte
that cannot continue a sequence.
-/

namespace AdFilter.Text

def utf8 (s : List Char) : List UInt8 :=
  s.flatMap String.utf8EncodeChar

namespace Utf8

/-- A sequence under way: the bits read so far, how many bytes are owed, and the bounds of the
next one. -/
structure Pending where
  bits : Nat
  owed : Nat
  low : UInt8 := 0x80
  high : UInt8 := 0xBF
  deriving DecidableEq, Repr

/-- What the first byte of a sequence of several bytes promises. The bounds of the second byte
shut out overlong forms, surrogates and everything above the last code point. -/
def lead (b : UInt8) : Option Pending :=
  let n := b.toNat
  if 0xC2 ≤ n && n ≤ 0xDF then some { bits := n % 32, owed := 1 }
  else if n == 0xE0 then some { bits := 0, owed := 2, low := 0xA0 }
  else if n == 0xED then some { bits := 13, owed := 2, high := 0x9F }
  else if 0xE1 ≤ n && n ≤ 0xEF then some { bits := n % 16, owed := 2 }
  else if n == 0xF0 then some { bits := 0, owed := 3, low := 0x90 }
  else if 0xF1 ≤ n && n ≤ 0xF3 then some { bits := n % 8, owed := 3 }
  else if n == 0xF4 then some { bits := 4, owed := 3, high := 0x8F }
  else none

def start (b : UInt8) : List (Option Char) × Option Pending :=
  if b < 0x80 then ([some (Char.ofNat b.toNat)], none)
  else match lead b with
    | some p => ([], some p)
    | none => ([none], none)

/-- One byte: what is read, and the sequence that is under way after it. A byte that does not
continue the sequence under way ends it and is read afresh. -/
def step : Option Pending → UInt8 → List (Option Char) × Option Pending
  | none, b => start b
  | some p, b =>
    if p.low ≤ b && b ≤ p.high then
      let bits := p.bits * 64 + b.toNat % 64
      if p.owed ≤ 1 then ([some (Char.ofNat bits)], none)
      else ([], some { bits, owed := p.owed - 1 })
    else
      let (read, next) := start b
      (none :: read, next)

def run : Option Pending → List UInt8 → List (Option Char)
  | none, [] => []
  | some _, [] => [none]
  | p, b :: bs => (step p b).1 ++ run (step p b).2 bs

end Utf8

/-- The characters of a byte string, with `none` for each piece that is not well formed. -/
def decode (bs : List UInt8) : List (Option Char) :=
  Utf8.run none bs

/-- The characters of a byte string, with U+FFFD for each piece that is not well formed. -/
def decodeLossy (bs : List UInt8) : List Char :=
  (decode bs).map (·.getD '\uFFFD')

/-- The characters of a byte string that is well formed throughout. -/
def decode? (bs : List UInt8) : Option (List Char) :=
  (decode bs).mapM id

end AdFilter.Text
