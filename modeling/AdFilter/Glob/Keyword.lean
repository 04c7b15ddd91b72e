import AdFilter.Text.Split
import AdFilter.Text.Utf8

/-!
# Keywords

The keyword of an address pattern is the first of its longest runs of keyword characters, if it
has a run of three or more. A rule is looked at only when its keyword occurs in the address.

Where the keyword stands is found byte by byte (`keywordRange`): every byte of another character is a
byte that ends a run.
-/

namespace AdFilter.Glob

/-- The characters that make up keywords: ASCII letters and digits, `&` and `?`. -/
def isKeywordChar (c : Char) : Bool :=
  c.isAlphanum || c == '&' || c == '?'

/-- Shorter runs are no keywords. -/
def minKeywordLength : Nat := 3

/-- The maximal runs of keyword characters, among empty texts. -/
def keywordRuns (pattern : List Char) : List (List Char) :=
  Text.split (!isKeywordChar ·) pattern

def betterKeyword (best run : List Char) : List Char :=
  if minKeywordLength ≤ run.length && best.length < run.length then run else best

/-- The first longest run of keyword characters, or nothing if all are short. -/
def keywordChars (pattern : List Char) : List Char :=
  (keywordRuns pattern).foldl betterKeyword []

def keyword (pattern : String) : String :=
  String.ofList (keywordChars pattern.toList)

/-! ## The place of the keyword -/

def isKeywordByte (b : UInt8) : Bool :=
  isKeywordChar (Char.ofNat b.toNat)

/-- A search for the keyword: the best run so far, from its first byte to the one behind it, and the
first byte of the run under way. -/
structure KeywordScan where
  best : Nat × Nat := (0, 0)
  start : Option Nat := none
  deriving DecidableEq, Repr

namespace KeywordScan

def close (s : KeywordScan) (place : Nat) : KeywordScan :=
  match s.start with
  | none => s
  | some start =>
    let length := place - start
    let isBetter := minKeywordLength ≤ length && s.best.2 - s.best.1 < length
    { best := if isBetter then (start, place) else s.best }

/-- Looks at the byte at a place. There is none at the end. -/
def step (s : KeywordScan) (place : Nat) (byte : Option UInt8) : KeywordScan :=
  if byte.any isKeywordByte then { s with start := s.start.or (some place) }
  else s.close place

def run (s : KeywordScan) (place : Nat) : List UInt8 → KeywordScan
  | [] => s.step place none
  | b :: bytes => (s.step place (some b)).run (place + 1) bytes

end KeywordScan

/-- The first byte of the keyword, and the one behind it. -/
def keywordRange (pattern : String) : Nat × Nat :=
  (KeywordScan.run {} 0 (Text.utf8 pattern.toList)).best

end AdFilter.Glob
