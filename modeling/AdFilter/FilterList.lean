import AdFilter.RuleIndex
import AdFilter.Text.Utf8

/-!
# Loading filter lists

A list is loaded line by line into an index, and what its lines gave is counted. A list comes as a
text (`load`) or as bytes from a source that may fail (`loadSource`). A source delivers its bytes
in chunks; its lines are what ends in a line feed, and what remains at its end. If it fails, the
lines that were complete by then stay loaded.
-/

namespace AdFilter

/-- What the lines of a list gave. -/
structure LoadStats where
  lines : Nat := 0
  rules : Nat := 0
  hides : Nat := 0
  /-- rules without a keyword -/
  blankKeywords : Nat := 0
  /-- lines that were meant as a rule and are none -/
  rejected : Nat := 0
  deriving DecidableEq, Repr, Inhabited

namespace LoadStats

def accepted (s : LoadStats) : Nat :=
  s.rules + s.hides

def merge (a b : LoadStats) : LoadStats where
  lines := a.lines + b.lines
  rules := a.rules + b.rules
  hides := a.hides + b.hides
  blankKeywords := a.blankKeywords + b.blankKeywords
  rejected := a.rejected + b.rejected

def record (s : LoadStats) : Except RejectReason FilterLine.Item → LoadStats
  | .ok (.hide _) => { s with lines := s.lines + 1, hides := s.hides + 1 }
  | .ok (.rule r) => { s with
      lines := s.lines + 1
      rules := s.rules + 1
      blankKeywords := s.blankKeywords + if r.keyword.isEmpty then 1 else 0 }
  | .error reason => { s with
      lines := s.lines + 1
      rejected := s.rejected + if reason.isHarmless then 0 else 1 }

end LoadStats

inductive ReadError where
  | notFound
  | notDirectory
  | isDirectory
  | other (reason : String)
  deriving DecidableEq, Repr

def ReadError.message : ReadError → String
  | .notFound => "No such file or directory (os error 2)"
  | .notDirectory => "Not a directory (os error 20)"
  | .isDirectory => "Is a directory (os error 21)"
  | .other reason => reason

namespace FilterList

/-- An index that is being loaded, and the count so far. -/
structure Loading where
  index : RuleIndex
  stats : LoadStats := {}
  deriving Inhabited

namespace Loading

def line (l : Loading) (text : List Char) : Loading :=
  let result := FilterLine.read text
  match result with
  | .ok item => { index := l.index.add item, stats := l.stats.record result }
  | .error _ => { l with stats := l.stats.record result }

def lines (l : Loading) (texts : List (List Char)) : Loading :=
  texts.foldl line l

end Loading

def load (index : RuleIndex) (text : String) : Loading :=
  Loading.lines { index } (Text.lines text.toList)

/-- Bytes that arrive in chunks, and how they end: with the end of the data, or with an error. -/
structure Source where
  chunks : List (List UInt8)
  failure : Option ReadError := none

/-- The index while a source is read, and the bytes of the line under way, the last one first. -/
structure Reading extends Loading where
  unfinished : List UInt8 := []

namespace Reading

/-- Takes in one byte. The line feed belongs to the line that it ends. -/
def byte (r : Reading) (b : UInt8) : Reading :=
  let bytes := b :: r.unfinished
  if b = 10 then { r.toLoading.line (Text.decodeLossy bytes.reverse) with unfinished := [] }
  else { r with unfinished := bytes }

/-- Takes the bytes behind the last line feed as a line, if there are any. -/
def finish (r : Reading) : Loading :=
  if r.unfinished.isEmpty then r.toLoading
  else r.toLoading.line (Text.decodeLossy r.unfinished.reverse)

end Reading

/-- Loads the lines of a source. The index holds all complete lines even if the source fails. -/
def loadSource (index : RuleIndex) (source : Source) : Except ReadError LoadStats × RuleIndex :=
  let reading : Reading := source.chunks.foldl (fun r chunk => chunk.foldl Reading.byte r) { index }
  match source.failure with
  | some e => (.error e, reading.index)
  | none =>
    let loaded := reading.finish
    (.ok loaded.stats, loaded.index)

end FilterList

end AdFilter
