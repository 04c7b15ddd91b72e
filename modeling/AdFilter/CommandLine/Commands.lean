import AdFilter.CommandLine.Help
import AdFilter.CommandLine.Json
import AdFilter.CommandLine.OutputBuffer
import AdFilter.CommandLine.Session
import AdFilter.Hide.Stylesheet

/-!
# Commands

The four commands as programs: `check` decides one request, `hide` writes the stylesheet of a
page, `filter` answers the requests on the standard input line by line, and `info` describes what
was loaded. `program` is the whole of a command line.
-/

namespace AdFilter.CommandLine

structure TimeFormat where
  /-- the time to load, in a report for people -/
  loading : Nat → String
  /-- the time to load, as a JSON number of milliseconds -/
  loadingNumber : Nat → String
  /-- the average time of a request -/
  average : Nat → String

namespace TimeFormat

/-- Nanoseconds as milliseconds with one decimal place. -/
def tenths (nanos : Nat) : String :=
  let n := (nanos + 50000) / 100000
  toString (n / 10) ++ "." ++ toString (n % 10)

def standard : TimeFormat where
  loading nanos := tenths nanos ++ "ms"
  loadingNumber := tenths
  average := Duration.render

end TimeFormat

namespace Session

/-! ## Check -/

def check (s : Session) (json : Bool) (source url : String) : Program :=
  let verdict := (s.engine.answer source url).verdict
  if json then
    let report := Json.object [
      ("src", .string source),
      ("url", .string url),
      ("blocked", .bool verdict.isBlocked),
      ("verdict", .string verdict.word),
      ("rule", (verdict.rule?.map fun r => Json.string r.text).getD .null)]
    .printText (toString report ++ "\n") (.exit 0)
  else
    .printText (url ++ ": " ++ toString verdict ++ "\n") (.exit 0)

/-! ## Hide -/

def emit (output : Option String) (bytes : List UInt8) (next : Program) : Program :=
  match output with
  | some path => .append path bytes next
  | none => .print bytes next

/-- Writes the pieces of a stylesheet, and the user's own one behind it. When that is read, part of
the stylesheet may still be in the buffer, which shows if both are the same file. -/
def writeSheet (output userStylesheet : Option String) (pieces : List (List UInt8)) : Program :=
  let sheet := pieces.flatten
  match userStylesheet with
  | none => emit output sheet (.exit 0)
  | some path =>
    let passed := (OutputBuffer.ofSizes (pieces.map (·.length))).passed
    emit output (sheet.take passed) <| .read path fun result =>
      let held := sheet.drop passed
      let failed (e : ReadError) := Program.fail ("Failed to read '" ++ path ++ "': " ++ e.message)
      match result with
      | .error e => emit output held (failed e)
      | .ok { chunks, failure := none } => emit output (held ++ chunks.flatten) (.exit 0)
      | .ok { failure := some e, .. } => emit output held (failed e)

def hide (s : Session) (domain : String) (output userStylesheet : Option String) : Program :=
  let sheet := ((s.engine.hideEntries domain).flatMap (·.pieces)).map Text.utf8
  match output with
  | none => writeSheet none userStylesheet sheet
  | some path => .create path fun
    | some e => .fail ("Failed to create '" ++ path ++ "': " ++ e.message)
    | none => writeSheet (some path) userStylesheet sheet

/-! ## Filter -/

def blockedUrl : String := "about:blank"

/-- The source and the address of a request in a line: its first two words, or its only one, which
then is an address without a source. -/
def requestOf (line : List Char) : Option (String × String) :=
  match Text.words line with
  | [] => none
  | [url] => some ("", String.ofList url)
  | source :: url :: _ => some (String.ofList source, String.ofList url)

def reply (verdict : Verdict) (url : String) : String :=
  if verdict.isBlocked then blockedUrl else url

/-- Answers the lines one after the other, and stops at one that is no text. -/
def filterLines (finish : Stats → Program) (engine : Engine) (stats : Stats) :
    List (List UInt8) → Program
  | [] => finish stats
  | line :: rest =>
    match Text.decode? line with
    | none => .fail "Failed to read stdin: stream did not contain valid UTF-8"
    | some text =>
      match requestOf text with
      | none => filterLines finish engine stats rest
      | some (source, url) =>
        .time fun before =>
          let decision := engine.answer source url
          .time fun after =>
            .printText (reply decision.verdict url ++ "\n")
              (filterLines finish decision.engine
                (stats.recordAll (decision.events (after - before))) rest)

def filter (s : Session) (verbose : Bool) (format : TimeFormat) : Program :=
  let finish (stats : Stats) : Program :=
    let snapshot := stats.snapshot
    if verbose then
      .complain (snapshot.describe (format.average snapshot.averageNanos.toNat) ++ "\n") (.exit 0)
    else .exit 0
  .input fun bytes => filterLines finish s.engine {} (Text.split (· == 10) bytes)

/-! ## Info -/

def infoJson (r : Report) (loading : String) : Json :=
  .object [
    ("lists", .number r.lists),
    ("load", .object [
      ("lines", .number r.load.lines),
      ("rules", .number r.load.rules),
      ("hides", .number r.load.hides),
      ("blank_keywords", .number r.load.blankKeywords),
      ("rejected", .number r.load.rejected)]),
    ("hides", (r.hides.map fun counts => Json.object [
      ("before", .number counts.before),
      ("after", .number counts.after)]).getD .null),
    ("total_ms", .numeral loading)]

def kindLine (label : String) (index : KeywordIndex) : String :=
  label ++ toString index.size ++ " (" ++ toString index.filed.size ++ " keyword buckets)\n"

def infoText (s : Session) (loading : String) : String :=
  let index := s.engine.index
  "Rule lists:   " ++ toString s.report.lists ++ "\n" ++
  "  Lines:      " ++ toString s.report.load.lines ++ "\n" ++
  "  Rejected:   " ++ toString s.report.load.rejected ++ "\n" ++
  "  Time:       " ++ loading ++ "\n\n" ++
  "Rules:\n" ++
  kindLine "  Block:      " index.block ++
  kindLine "  Exception:  " index.exception ++
  "  No keyword: " ++ toString index.unkeyedCount ++ " (checked on every request)\n\n" ++
  "Element hiding:\n" ++
  "  Rules:      " ++ toString s.report.load.hides ++ "\n" ++
  "  Entries:    " ++
  (match s.report.hides with
    | some counts => toString counts.after ++ " (merged from " ++ toString counts.before ++ ")"
    | none => toString index.hides.size) ++ "\n\n" ++
  "Cache capacity: " ++ toString s.engine.cache.capacity ++ "\n"

def info (s : Session) (json : Bool) (format : TimeFormat) (nanos : Nat) : Program :=
  if json then
    .printText (toString (infoJson s.report (format.loadingNumber nanos)) ++ "\n") (.exit 0)
  else
    .printText (s.infoText (format.loading nanos)) (.exit 0)

end Session

/-! ## Command lines -/

def note (text : String) (next : Program) : Program :=
  if text.isEmpty then next else .complain text next

def Arguments.program (a : Arguments) (format : TimeFormat) : Program :=
  .time fun before => Program.readAll (fun files =>
    match Session.create a.config a.verbose files with
    | .error (notes, message) => note notes (.fail message)
    | .ok (notes, session) =>
      note notes <| .time fun after =>
        match a.command with
        | .check source url => session.check a.json source url
        | .hide domain output userStylesheet => session.hide domain output userStylesheet
        | .filter => session.filter a.verbose format
        | .info => session.info a.json format (after - before)) a.rules

/-- A command line as a program. A question for help is answered; one that cannot be carried out
ends with the code 2. -/
def program (format : TimeFormat) (words : List String) : Program :=
  match Arguments.read words with
  | .ok a => a.program format
  | .error (.help topic) => .printText topic.page (.exit 0)
  | .error (.misuse e) => .complain ("error: " ++ e.message ++ "\n") (.exit 2)

end AdFilter.CommandLine
