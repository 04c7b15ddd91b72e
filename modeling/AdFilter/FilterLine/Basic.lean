import AdFilter.FilterLine.Options
import AdFilter.Glob.Keyword
import AdFilter.Hide.Entry

/-!
# Lines of a filter list

`FilterLine.read` makes a blocking rule or an element-hide entry of a line, or tells why it is
neither. A line that holds `##` or `#@#` is an element-hide line; every other line that is not
blank and no comment is a blocking rule.
-/

namespace AdFilter.FilterLine

inductive Item where
  | rule (r : Rule)
  | hide (e : HideEntry)
  deriving DecidableEq

/-! ## Element-hide lines -/

def exceptionMark : List Char := ['#', '@', '#']

def hideMark : List Char := ['#', '#']

/-- The two sides of an element-hide line, and whether it is an exception. The exception mark is
looked for first. -/
def splitHide (line : List Char) : Option (Bool × List Char × List Char) :=
  match Text.splitOnce exceptionMark line with
  | some parts => some (true, parts)
  | none => (Text.splitOnce hideMark line).map fun parts => (false, parts)

/-- Adds one name to the scope of an element-hide line. A `~` excludes, and so does every name of
an exception. -/
def addName (isException : Bool) (scope : Scope) (name : List Char) : Scope :=
  match name with
  | '~' :: name => { scope with exclude := scope.exclude.insert (Domain.ofChars name) }
  | name =>
    if isException then { scope with exclude := scope.exclude.insert (Domain.ofChars name) }
    else { scope with domains := scope.domains.insert (Domain.ofChars name) }

/-- The names before the mark: between commas, without blanks around them, and not empty. -/
def scopeNames (text : List Char) : List (List Char) :=
  ((Text.split (· == ',') text).map Text.trim).filter (!·.isEmpty)

/-- Reads the two sides of an element-hide line. An exception for no page at all is refused. -/
def readHide (isException : Bool) (names selector : List Char) : Except RejectReason HideEntry :=
  let selector := Text.trim selector
  let scope := (scopeNames names).foldl (addName isException) {}
  if selector.isEmpty || (isException && scope.exclude.isEmpty) then .error .malformedHide
  else .ok { scope, selectors := [String.ofList selector] }

/-! ## Blocking rules -/

def splitException : List Char → Bool × List Char
  | '@' :: '@' :: body => (true, body)
  | body => (false, body)

/-- The pattern of a rule and its options, which are empty if there are none. -/
def splitOptions (body : List Char) : List Char × List Char :=
  (Text.splitOnce ['$'] body).getD (body, [])

/-- Patterns that fit almost every request. -/
def degeneratePatterns : List String :=
  ["|http:", "|http://"]

/-- Reads a line without blanks around it as a blocking rule. -/
def readRule (line : List Char) : Except RejectReason Rule := do
  let (isException, body) := splitException line
  let (pattern, optionsText) := splitOptions body
  let pattern := String.ofList pattern
  if pattern.isEmpty then throw .emptyPattern
  if pattern ∈ degeneratePatterns then throw .degeneratePattern
  let options ← Options.read optionsText
  if Glob.isTooLarge pattern then throw .patternTooLarge
  return {
    text := String.ofList line
    isException
    matchCase := options.matchCase
    pattern := Pattern.compile pattern options.matchCase
    keyword := Glob.keyword pattern
    domains := options.domains
    party := options.party }

/-! ## Lines -/

def isComment (line : List Char) : Bool :=
  line.head? == some '!' || line.head? == some '['

def readTrimmed (line : List Char) : Except RejectReason Item :=
  if line.isEmpty then .error .blank
  else if isComment line then .error .comment
  else
    match splitHide line with
    | some (isException, names, selector) => (readHide isException names selector).map .hide
    | none => (readRule line).map .rule

def read (line : List Char) : Except RejectReason Item :=
  readTrimmed (Text.trim line)

/-- The items of the lines that give one. -/
def readAll (text : String) : List Item :=
  (Text.lines text.toList).filterMap fun line => (read line).toOption

end AdFilter.FilterLine
