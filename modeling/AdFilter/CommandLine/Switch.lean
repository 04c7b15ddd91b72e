import AdFilter.ResultCache

/-!
# Switches

The parts of a command line that start with a dash: flags, options that take a value, and the
question for help. Each has a long name, and some have a letter too. `long_injective` and
`letter?_injective` say that no two share a name.
-/

namespace AdFilter.CommandLine

inductive Switch where
  | rules
  | cache
  | hierarchicalDomains
  | noMerge
  | output
  | userStylesheet
  | verbose
  | json
  | help
  deriving DecidableEq, Repr

namespace Switch

/-- What a switch does: it says yes, it takes a value, or it asks for help. -/
inductive Effect where
  | flag
  | option (placeholder : String)
  | question
  deriving DecidableEq, Repr

def effect : Switch → Effect
  | .rules => .option "RULES"
  | .cache => .option "CACHE"
  | .output => .option "OUTPUT"
  | .userStylesheet => .option "USER_STYLESHEET"
  | .hierarchicalDomains | .noMerge | .verbose | .json => .flag
  | .help => .question

def long : Switch → String
  | .rules => "rules"
  | .cache => "cache"
  | .hierarchicalDomains => "hierarchical-domains"
  | .noMerge => "no-merge"
  | .output => "output"
  | .userStylesheet => "user-stylesheet"
  | .verbose => "verbose"
  | .json => "json"
  | .help => "help"

def letter? : Switch → Option Char
  | .rules => some 'r'
  | .output => some 'o'
  | .verbose => some 'v'
  | .help => some 'h'
  | _ => none

def about : Switch → String
  | .rules => "Filter list files"
  | .cache => "Number of match results to cache [default: " ++
      toString ResultCache.defaultCapacity ++ "]"
  | .hierarchicalDomains => "Match $domain= constraints against parent domains too"
  | .noMerge => "Skip merging element hide entries by scope"
  | .output => "Write the stylesheet here instead of stdout"
  | .userStylesheet => "Stylesheet to append after the generated rules"
  | .verbose => "Verbose output"
  | .json => "Print results as JSON"
  | .help => "Print help"

theorem long_injective {s t : Switch} (h : s.long = t.long) : s = t := by
  cases s <;> cases t <;> simp_all [long]

theorem letter?_injective {s t : Switch} {c : Char} (hs : s.letter? = some c)
    (ht : t.letter? = some c) : s = t := by
  cases s <;> cases t <;> simp_all [letter?] <;> (subst hs; simp at ht)

/-- The long name as it is written, with a placeholder for the value. -/
def form (s : Switch) : String :=
  match s.effect with
  | .option placeholder => "--" ++ s.long ++ " <" ++ placeholder ++ ">"
  | _ => "--" ++ s.long

/-- Both names. The place of the letter is kept free if there is none. -/
def label (s : Switch) : String :=
  match s.letter? with
  | some c => "-" ++ String.singleton c ++ ", " ++ s.form
  | none => "    " ++ s.form

end Switch

end AdFilter.CommandLine
