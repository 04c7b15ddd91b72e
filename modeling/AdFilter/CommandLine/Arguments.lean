import AdFilter.CommandLine.Given
import AdFilter.Text.Split

/-!
# Arguments of the command line

A command line names rule files and says how to match, then comes a command with its own
arguments. `-v` and `--json` may stand on either side of the command. Flags and options are given
at most once on either side; only rule files may be named repeatedly. `Arguments.read` reads a
whole command line, word by word, up to the first question for help or the first error.
-/

namespace AdFilter.CommandLine

inductive Command where
  | check (source url : String)
  | hide (domain : String) (output userStylesheet : Option String)
  | filter
  | info
  deriving DecidableEq, Repr

structure Arguments where
  rules : List String
  cacheCapacity : Nat
  hierarchical : Bool
  noMerge : Bool
  verbose : Bool
  json : Bool
  command : Command
  deriving DecidableEq, Repr

/-! ## Words -/

/-- A word, by its first characters. -/
inductive Word where
  /-- `--`, behind which there are no switches -/
  | escape
  | long (name : String) (value : Option String)
  | short (letters : List Char)
  | plain
  deriving DecidableEq, Repr

def Word.read (word : String) : Word :=
  match word.toList with
  | ['-', '-'] => .escape
  | '-' :: '-' :: body =>
    match Text.splitOnce ['='] body with
    | some (name, value) => .long (String.ofList name) (some (String.ofList value))
    | none => .long (String.ofList body) none
  | '-' :: c :: letters => .short (c :: letters)
  | _ => .plain

/-- What the words behind the word for help ask. -/
def readQuestion (words : List String) : Stop :=
  match Topic.ofWords? words with
  | some topic => .help topic
  | none => .misuse (.unknownCommand (" ".intercalate words))

/-- Reads the words up to the name of the command. What is open there stays open. -/
def readGeneral : (words : List String) → Given →
    Except Stop (Given × CommandName × List String)
  | [], g => do
    let _ ← g.settle
    refuse .missingCommand
  | word :: words, g =>
    match Word.read word with
    | .escape => refuse .missingCommand
    | .long name value => do readGeneral words (← g.addLong .program name value)
    | .short letters => do readGeneral words (← g.addShort .program letters)
    | .plain =>
      match g.fill? word, CommandName.ofWord? word with
      | some g, _ => readGeneral words g
      | none, some command => .ok (g, command, words)
      | none, none =>
        if word = Topic.helpWord then .error (readQuestion words)
        else refuse (.unknownCommand word)

def readOwn (command : CommandName) : (words : List String) → Given → Except Stop Given
  | [], g => g.settle
  | word :: words, g =>
    match Word.read word with
    | .escape => do (← words.foldlM (Given.addPositional command) g).settle
    | .long name value => do readOwn command words (← g.addLong (.command command) name value)
    | .short letters => do readOwn command words (← g.addShort (.command command) letters)
    | .plain =>
      match g.fill? word with
      | some g => readOwn command words g
      | none => do readOwn command words (← g.addPositional command word)

/-! ## Whole command lines -/

def readCommand (command : CommandName) (g : Given) : Except Stop Command :=
  match command, g.positionals with
  | .check, [source, url] => .ok (.check source url)
  | .hide, [domain] => .ok (.hide domain g.output g.userStylesheet)
  | .filter, [] => .ok .filter
  | .info, [] => .ok .info
  | command, _ => refuse (.wrongArgumentCount command.word)

def Arguments.read (words : List String) : Except Stop Arguments := do
  let (general, name, rest) ← readGeneral words {}
  let own ← readOwn name rest {}
  let command ← readCommand name own
  let general ← general.settle
  if general.rules.isEmpty then refuse .missingRules
  let flags := general.flags ++ own.flags
  return {
    command
    rules := general.rules
    cacheCapacity := general.cacheCapacity.getD ResultCache.defaultCapacity
    hierarchical := .hierarchicalDomains ∈ flags
    noMerge := .noMerge ∈ flags
    verbose := .verbose ∈ flags
    json := .json ∈ flags }

end AdFilter.CommandLine
