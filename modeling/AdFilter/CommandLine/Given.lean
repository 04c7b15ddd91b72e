import AdFilter.CommandLine.Topic

/-!
# What is given

The words of a command line are read one after the other, and `Given` holds what they gave so far.
An option in a word of its own is left open until the next switch or argument comes: only then is
it asked whether its value is there and can be used. So a question for help that comes in between
is still answered. `pending_settle` says that nothing is open afterwards.
-/

namespace AdFilter.CommandLine

inductive UsageError where
  | unknownArgument (argument : String)
  | missingValue (name : String)
  | unexpectedValue (name : String)
  | invalidNumber (text : String)
  | repeated (name : String)
  | missingRules
  | missingCommand
  | unknownCommand (name : String)
  | wrongArgumentCount (command : String)
  deriving DecidableEq, Repr

def UsageError.message : UsageError → String
  | .unknownArgument argument => "unknown argument: " ++ argument
  | .missingValue name => "a value is needed for " ++ name
  | .unexpectedValue name => "no value is allowed for " ++ name
  | .invalidNumber text => "not a number: " ++ text
  | .repeated name => "given more than once: " ++ name
  | .missingRules => "no rule file is named"
  | .missingCommand => "no command is named"
  | .unknownCommand name => "unknown command: " ++ name
  | .wrongArgumentCount command => "wrong number of arguments for " ++ command

/-- Why the reading of a command line ends early: by a question, or by an error. The first one
counts. -/
inductive Stop where
  | help (topic : Topic)
  | misuse (error : UsageError)
  deriving DecidableEq, Repr

def refuse {α : Type} (error : UsageError) : Except Stop α :=
  .error (.misuse error)

def maxNumber : Nat := 0xFFFFFFFFFFFFFFFF

/-- A number in decimal digits, with a plus sign or without. -/
def readNumber (text : String) : Except Stop Nat :=
  let digits : List Char := match text.toList with
    | '+' :: digits => digits
    | digits => digits
  let n := digits.foldl (fun n c => 10 * n + (c.toNat - '0'.toNat)) 0
  if digits ≠ [] ∧ digits.all Char.isDigit ∧ n ≤ maxNumber then .ok n
  else refuse (.invalidNumber text)

/-- What the words on one side of the command give. -/
structure Given where
  flags : List Switch := []
  rules : List String := []
  cacheCapacity : Option Nat := none
  output : Option String := none
  userStylesheet : Option String := none
  positionals : List String := []
  /-- an option that is still open, with the value that has come since -/
  pending : Option (Switch × Option String) := none
  deriving DecidableEq, Repr

namespace Given

/-! ## Switches -/

def addFlag (g : Given) (flag : Switch) : Except Stop Given :=
  if flag ∈ g.flags then refuse (.repeated flag.long)
  else .ok { g with flags := g.flags ++ [flag] }

def once {α : Type} (option : Switch) (old : Option α) (new : α) : Except Stop (Option α) :=
  match old with
  | none => .ok (some new)
  | some _ => refuse (.repeated option.long)

def addOption (g : Given) (option : Switch) (value : String) : Except Stop Given := do
  match option with
  | .rules => return { g with rules := g.rules ++ [value] }
  | .cache =>
    return { g with cacheCapacity := ← once option g.cacheCapacity (← readNumber value) }
  | .output => return { g with output := ← once option g.output value }
  | .userStylesheet => return { g with userStylesheet := ← once option g.userStylesheet value }
  | _ => refuse (.unexpectedValue option.long)

theorem pending_addOption {g g' : Given} {option : Switch} {value : String}
    (h : g.addOption option value = .ok g') : g'.pending = g.pending := by
  cases option <;> simp only [addOption, refuse, reduceCtorEq] at h
  case rules =>
    cases h
    rfl
  case cache =>
    cases hn : readNumber value with
    | error e => simp [hn, bind, Except.bind] at h
    | ok n =>
      cases ho : once .cache g.cacheCapacity n <;> simp [hn, ho, bind, Except.bind] at h
      cases h
      rfl
  case output =>
    cases ho : once .output g.output value <;> simp [ho, bind, Except.bind] at h
    cases h
    rfl
  case userStylesheet =>
    cases ho : once .userStylesheet g.userStylesheet value <;>
      simp [ho, bind, Except.bind] at h
    cases h
    rfl

/-- Adds the option that is open. -/
def settle (g : Given) : Except Stop Given :=
  match g.pending with
  | none => .ok g
  | some (option, none) => refuse (.missingValue option.long)
  | some (option, some value) => { g with pending := none }.addOption option value

theorem pending_settle {g g' : Given} (h : g.settle = .ok g') : g'.pending = none := by
  unfold settle at h
  split at h
  case h_1 hg =>
    cases h
    exact hg
  case h_2 => simp [refuse] at h
  case h_3 => exact pending_addOption h

/-- Adds a switch, with the value that is attached to it. `topic` is what a question is about. -/
def addSwitch (topic : Topic) (g : Given) (switch : Switch) (attached : Option String) :
    Except Stop Given := do
  let g ← g.settle
  match switch.effect, attached with
  | .question, none => throw (.help topic)
  | .flag, none => g.addFlag switch
  | .option _, none => return { g with pending := some (switch, none) }
  | .option _, some value => g.addOption switch value
  | _, some _ => refuse (.unexpectedValue switch.long)

def addLong (topic : Topic) (g : Given) (name : String) (attached : Option String) :
    Except Stop Given :=
  match topic.switches.find? (·.long == name) with
  | some switch => g.addSwitch topic switch attached
  | none => refuse (.unknownArgument name)

/-- The value behind the letter of an option, if there is any. An equals sign before it is no part
of it. -/
def attachedValue? : List Char → Option String
  | [] => none
  | '=' :: value => some (String.ofList value)
  | value => some (String.ofList value)

/-- Adds a bunch of letters. Those behind the letter of an option are its value. -/
def addShort (topic : Topic) (g : Given) : List Char → Except Stop Given
  | [] => .ok g
  | c :: letters =>
    match topic.switches.find? (·.letter? == some c) with
    | none => refuse (.unknownArgument (String.singleton c))
    | some switch =>
      match switch.effect with
      | .option _ => g.addSwitch topic switch (attachedValue? letters)
      | _ => do addShort topic (← g.addSwitch topic switch none) letters

/-! ## Other words -/

/-- Takes a word as the value that an option waits for. -/
def fill? (g : Given) (word : String) : Option Given :=
  match g.pending with
  | some (option, none) => some { g with pending := some (option, some word) }
  | _ => none

def addPositional (command : CommandName) (g : Given) (word : String) : Except Stop Given := do
  let g ← g.settle
  if g.positionals.length < command.positionals.length then
    return { g with positionals := g.positionals ++ [word] }
  else refuse (.wrongArgumentCount command.word)

end Given

end AdFilter.CommandLine
