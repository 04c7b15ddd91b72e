import AdFilter.Rule

/-!
# The options of a blocking rule

What stands behind the first `$` of a rule is a list of items, separated by commas. `Item.read`
tells what one item is, and `Options.read` adds the items up; the first item that cannot be taken
is the error.
-/

namespace AdFilter

/-- Why a line of a filter list gives neither a rule nor an element-hide entry. -/
inductive RejectReason where
  | blank
  | comment
  | emptyPattern
  | degeneratePattern
  | malformedHide
  /-- an option that asks for the type of the requested content, as it is written -/
  | unsupportedOption (item : String)
  | invalidDomainOption
  | patternTooLarge
  deriving DecidableEq, Repr

namespace RejectReason

def message : RejectReason → String
  | .blank => "blank line"
  | .comment => "comment"
  | .emptyPattern => "empty pattern"
  | .degeneratePattern => "pattern matches almost every request"
  | .malformedHide => "element hide rule without a selector"
  | .unsupportedOption item => "unsupported option `" ++ item ++ "`"
  | .invalidDomainOption => "malformed domain option"
  | .patternTooLarge =>
    "pattern does not compile: Compiled regex exceeds size limit of 10485760 bytes."

/-- Whether the line holds nothing that was meant as a rule. -/
def isHarmless : RejectReason → Bool
  | .blank | .comment => true
  | _ => false

end RejectReason

namespace FilterLine

/-- The options that ask for the type of the requested content. -/
def contentTypes : List String := [
    "script", "image", "stylesheet", "object", "xmlhttprequest", "xhr", "object-subrequest",
    "subdocument", "document", "elemhide", "generichide", "other", "background", "xbl", "ping",
    "dtd", "media", "font", "websocket", "popup"
  ]

inductive OptionItem where
  | matchCase
  | thirdParty
  | firstParty
  | domains (constraints : List DomainConstraint)
  /-- an item without a meaning here -/
  | ignored
  deriving DecidableEq, Repr

def readDomains (value : List Char) : List DomainConstraint :=
  (((Text.split (· == '|') value).map Text.trim).filter (!·.isEmpty)).map DomainConstraint.ofChars

def dropTilde : List Char → List Char
  | '~' :: name => name
  | name => name

/-- Reads an item that is neither blank nor has blanks around it. Names are read without regard to
case; the value of a `domain` option is kept as it is written. -/
def OptionItem.read (item : List Char) : Except RejectReason OptionItem :=
  let name := item.map Char.toLower
  if name = "match-case".toList then .ok .matchCase
  else if name = "third-party".toList then .ok .thirdParty
  else if name = "~third-party".toList then .ok .firstParty
  else if "domain".toList.isPrefixOf name then
    match item.drop "domain".length with
    | '=' :: value => .ok (.domains (readDomains value))
    | _ => .error .invalidDomainOption
  else if String.ofList (dropTilde name) ∈ contentTypes then
    .error (.unsupportedOption (String.ofList item))
  else .ok .ignored

structure Options where
  matchCase : Bool := false
  party : Party := {}
  domains : List DomainConstraint := []
  deriving DecidableEq, Repr, Inhabited

namespace Options

def add (o : Options) : OptionItem → Options
  | .matchCase => { o with matchCase := true }
  | .thirdParty => { o with party := { o.party with third := true } }
  | .firstParty => { o with party := { o.party with first := true } }
  | .domains constraints => { o with domains := o.domains ++ constraints }
  | .ignored => o

/-- The items of an options text: between commas, without blanks around them, and not empty. -/
def items (text : List Char) : List (List Char) :=
  ((Text.split (· == ',') text).map Text.trim).filter (!·.isEmpty)

def addItem (o : Options) (item : List Char) : Except RejectReason Options :=
  (OptionItem.read item).map o.add

def read (text : List Char) : Except RejectReason Options :=
  (items text).foldlM addItem {}

end Options

end FilterLine

end AdFilter
