import AdFilter.Regex.Reader

/-!
# Expressions of what was read

`compile?` reads an expression and makes parts of its items. The flags at an item are those of the
groups around it and those that stand before it in the innermost one, in whatever branch.
-/

namespace AdFilter.Regex

structure Flags where
  caseless : Bool := false
  multiLine : Bool := false
  /-- whether a dot stands for the line feed too -/
  dotAll : Bool := false
  deriving DecidableEq, Repr

namespace Flags

def add (flags : Flags) (letters : List Char) : Flags where
  caseless := flags.caseless || letters.contains 'i'
  multiLine := flags.multiLine || letters.contains 'm'
  dotAll := flags.dotAll || letters.contains 's'

def after (flags : Flags) : Item → Flags
  | .flags letters => flags.add letters
  | _ => flags

def inside (flags : Flags) : Opening → Flags
  | .capturing => flags
  | .plain letters => flags.add letters

end Flags

def Repetition.least : Repetition → Nat
  | .anyNumber | .atMostOne => 0
  | .atLeastOne => 1
  | .counted least _ => least

/-- How often an item may stand in a row on top of what it must. -/
def Repetition.more : Repetition → Option Nat
  | .anyNumber | .atLeastOne => none
  | .atMostOne => some 1
  | .counted least most => most.map (· - least)

mutual

/-- The part that an item stands for. To take as few as possible finds no more and no less. -/
def Item.part (flags : Flags) : Item → Part
  | .char c => .one (.char c flags.caseless)
  | .any => .one (.any flags.dotAll)
  | .oneOf negated ranges => .one (.oneOf negated ranges flags.caseless)
  | .textStart => .anchor (if flags.multiLine then .lineStart else .textStart)
  | .textEnd => .anchor (if flags.multiLine then .lineEnd else .textEnd)
  | .flags _ => .empty
  | .repeated item repetition _ => .repeated (item.part flags) repetition.least repetition.more
  | .group opening branches => branchesPart (flags.inside opening) branches

def branchPart (flags : Flags) : List Item → Part
  | [] => .empty
  | item :: items => .seq (item.part flags) (branchPart (flags.after item) items)

def branchesPart (flags : Flags) : List (List Item) → Part
  | [] => .never
  | branch :: branches =>
    .alt (branchPart flags branch) (branchesPart (branch.foldl Flags.after flags) branches)

end

/-- The expression that is written as `source` and read as some branches. -/
def ofBranches (source : String) (branches : List (List Item)) : Regex where
  source := source
  part := branchesPart {} branches

/-- The expression that a text writes, if it does. -/
def compile? (source : String) : Option Regex :=
  (read source.toList).map (ofBranches source)

example : (compile? "(?i)a|^b{2,}?").map (·.part) =
    some (.alt (.seq .empty (.seq (.one (.char 'a' true)) .empty))
      (.alt (.seq (.anchor .textStart) (.seq (.repeated (.one (.char 'b' true)) 2 none) .empty))
        .never)) := rfl

end AdFilter.Regex
