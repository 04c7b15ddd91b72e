import AdFilter.CommandLine.Switch

/-!
# Topics

What help can be asked about: the program as a whole, each of its commands, and the question for
help. A topic has its arguments and its switches; the same tables say what may be given and what
the help tells. `ofWord?_eq_some_iff` and `ofWords?_eq_some_iff` say that commands and topics are
found by their names and by nothing else.
-/

namespace AdFilter.CommandLine

structure Positional where
  name : String
  about : String
  /-- whether it stands for any number of words, even none -/
  isOpen : Bool := false
  deriving DecidableEq, Repr

def Positional.label (p : Positional) : String :=
  if p.isOpen then "[" ++ p.name ++ "]..." else "<" ++ p.name ++ ">"

inductive CommandName where
  | check
  | hide
  | filter
  | info
  deriving DecidableEq, Repr

namespace CommandName

def all : List CommandName := [.check, .hide, .filter, .info]

def word : CommandName → String
  | .check => "check"
  | .hide => "hide"
  | .filter => "filter"
  | .info => "info"

def ofWord? (word : String) : Option CommandName :=
  all.find? (·.word == word)

theorem ofWord?_eq_some_iff {word : String} {name : CommandName} :
    ofWord? word = some name ↔ name.word = word := by
  constructor
  · intro h
    simpa using List.find?_some h
  · rintro rfl
    cases name <;> decide

def about : CommandName → String
  | .check => "Check whether a single request would be blocked"
  | .hide => "Print the element hiding stylesheet for a page domain"
  | .filter => "Filter \"<src> <url>\" lines from stdin, printing the URL or about:blank"
  | .info => "Show rule list statistics"

def positionals : CommandName → List Positional
  | .check => [
      { name := "SRC", about := "Source page (URL or domain)" },
      { name := "URL", about := "Requested URL" }]
  | .hide => [{ name := "DOMAIN", about := "Page domain" }]
  | .filter => []
  | .info => []

/-- The switches that may stand anywhere. -/
def sharedSwitches : List Switch := [.verbose, .json, .help]

def switches : CommandName → List Switch
  | .hide => [.output, .userStylesheet] ++ sharedSwitches
  | _ => sharedSwitches

end CommandName

inductive Topic where
  | program
  | command (name : CommandName)
  | help
  deriving DecidableEq, Repr

namespace Topic

def all : List Topic :=
  [.program] ++ CommandName.all.map .command ++ [.help]

def helpWord : String := "help"

/-- The words that name a topic behind the word for help. -/
def words : Topic → List String
  | .program => []
  | .command name => [name.word]
  | .help => [helpWord]

def ofWords? (words : List String) : Option Topic :=
  all.find? (·.words == words)

theorem ofWords?_eq_some_iff {words : List String} {topic : Topic} :
    ofWords? words = some topic ↔ topic.words = words := by
  constructor
  · intro h
    simpa using List.find?_some h
  · rintro rfl
    rcases topic with _ | name | _
    · decide
    · cases name <;> decide
    · decide

def about : Topic → String
  | .program => "Blockwise request filter and element hiding tools"
  | .command name => name.about
  | .help => "Print this message or the help of the given subcommand(s)"

def positionals : Topic → List Positional
  | .program => []
  | .command name => name.positionals
  | .help => [{
      name := "COMMAND", about := "Print help for the subcommand(s)", isOpen := true }]

def switches : Topic → List Switch
  | .program => [.rules, .cache, .hierarchicalDomains, .noMerge] ++ CommandName.sharedSwitches
  | .command name => name.switches
  | .help => []

end Topic

end AdFilter.CommandLine
