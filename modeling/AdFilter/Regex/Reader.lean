import AdFilter.Regex.Basic

/-!
# Reading expressions

`read` reads an expression character by character, from left to right, and gives its branches. A
`Reader` holds what is read so far: the items of the branch under way, the branches before it, and the
groups that are open around it. Every character that means something in an expression does so here,
wherever it stands without a backslash: it opens or closes a group or a class, repeats the item in
front of it, starts another branch.

Not all that can be written is covered. Names of groups, letters behind a backslash, flags other than
`i`, `m` and `s`, and in a class all but characters and ranges are refused; whatever is read is read as
the full syntax has it.
-/

namespace AdFilter.Regex

inductive Repetition where
  /-- `*` -/
  | anyNumber
  /-- `+` -/
  | atLeastOne
  /-- `?` -/
  | atMostOne
  /-- two numbers in braces, the second of which may be missing -/
  | counted (least : Nat) (most : Option Nat)
  deriving DecidableEq, Repr

/-- What a group opens with: `(`, or `(?:` with flags in front of the colon. -/
inductive Opening where
  | capturing
  | plain (flags : List Char)
  deriving DecidableEq, Repr

inductive Item where
  | char (c : Char)
  /-- any character but the line feed -/
  | any
  /-- a character in some ranges, or one outside them -/
  | oneOf (negated : Bool) (ranges : List (Char × Char))
  | textStart
  | textEnd
  /-- flags for what follows -/
  | flags (letters : List Char)
  /-- `lazy` if as few as possible are taken -/
  | repeated (item : Item) (repetition : Repetition) (lazy : Bool)
  | group (opening : Opening) (branches : List (List Item))
  deriving Repr

/-- What was read last in a class. -/
inductive InClass where
  | range
  /-- a character that a range can start with -/
  | single (c : Char)
  /-- a character and a dash -/
  | dash (c : Char)
  deriving DecidableEq, Repr

/-- The ranges of a class that ends here. A dash at its end stands for itself. -/
def InClass.endClass (ranges : List (Char × Char)) : InClass → List (Char × Char)
  | .range => ranges
  | .single a => ranges ++ [(a, a)]
  | .dash a => ranges ++ [(a, a), ('-', '-')]

/-- Where a reader stands. -/
inductive Mode where
  | between
  /-- behind a repetition, which a question mark makes lazy -/
  | repeated
  /-- behind a backslash -/
  | escaped
  /-- behind `(` -/
  | opened
  /-- behind `(?` and some flags -/
  | asked (flags : List Char)
  /-- behind an opening brace and some digits, or behind a comma and some more of them -/
  | counting (least : List Char) (most : Option (List Char))
  /-- behind `[` -/
  | classOpened
  | inClass (negated : Bool) (ranges : List (Char × Char)) (last : InClass)
  deriving DecidableEq, Repr

/-- Whether an item can start, or the text end. -/
def Mode.isResting : Mode → Bool
  | .between | .repeated => true
  | _ => false

structure Reader where
  mode : Mode := .between
  /-- the items of the branch under way, the last one first -/
  items : List Item := []
  /-- the branches before it, the last one first -/
  branches : List (List Item) := []
  /-- the open groups, the inner ones first, each with the items and branches in front of it -/
  outer : List (Opening × List Item × List (List Item)) := []
  deriving Repr

namespace Reader

def add (r : Reader) (item : Item) : Reader :=
  { r with mode := .between, items := item :: r.items }

def allBranches (r : Reader) : List (List Item) :=
  (r.items.reverse :: r.branches).reverse

def openGroup (r : Reader) (opening : Opening) : Reader :=
  { outer := (opening, r.items, r.branches) :: r.outer }

def closeGroup (r : Reader) : Option Reader :=
  match r.outer with
  | [] => none
  | (opening, items, branches) :: outer =>
    some { items := .group opening r.allBranches :: items, branches, outer }

/-- Repeats the last item. There must be one, and flags are none. -/
def repeatLast (r : Reader) (repetition : Repetition) : Option Reader :=
  match r.items with
  | [] | .flags _ :: _ => none
  | item :: items =>
    some { r with mode := .repeated, items := .repeated item repetition false :: items }

def makeLazy (r : Reader) : Option Reader :=
  match r.items with
  | .repeated item repetition _ :: items =>
    some { r with mode := .between, items := .repeated item repetition true :: items }
  | _ => none

/-- A character that does not continue what is in front of it. -/
def start (r : Reader) (c : Char) : Option Reader :=
  if c = '\\' then some { r with mode := .escaped }
  else if c = '(' then some { r with mode := .opened }
  else if c = ')' then r.closeGroup
  else if c = '[' then some { r with mode := .classOpened }
  else if c = '|' then
    some { r with mode := .between, items := [], branches := r.items.reverse :: r.branches }
  else if c = '*' then r.repeatLast .anyNumber
  else if c = '+' then r.repeatLast .atLeastOne
  else if c = '?' then r.repeatLast .atMostOne
  else if c = '\x7b' then some { r with mode := .counting [] none }
  else if c = '.' then some (r.add .any)
  else if c = '^' then some (r.add .textStart)
  else if c = '$' then some (r.add .textEnd)
  else some (r.add (.char c))

/-- The flags behind `(?`, each at most once, and the colon or the bracket behind them. -/
def stepFlags (r : Reader) (flags : List Char) (c : Char) : Option Reader :=
  if c = ':' then some (r.openGroup (.plain flags))
  else if c = ')' then if flags = [] then none else some (r.add (.flags flags))
  else if c ∈ ['i', 'm', 's'] ∧ c ∉ flags then some { r with mode := .asked (flags ++ [c]) }
  else none

/-- The number that some digits write. There must be one, and it must fit 32 bits. -/
def number (digits : List Char) : Option Nat :=
  let n := digits.foldl (fun n c => 10 * n + (c.toNat - '0'.toNat)) 0
  if !digits.isEmpty && n < UInt32.size then some n else none

/-- The braces behind an item. One number stands for both. -/
def endCount (r : Reader) (least : List Char) (most : Option (List Char)) : Option Reader := do
  let n ← number least
  match most with
  | none => r.repeatLast (.counted n (some n))
  | some [] => r.repeatLast (.counted n none)
  | some digits =>
    let m ← number digits
    if n ≤ m then r.repeatLast (.counted n (some m)) else none

def stepCount (r : Reader) (least : List Char) (most : Option (List Char)) (c : Char) :
    Option Reader :=
  if c = '\x7d' then r.endCount least most
  else if c = ',' ∧ most = none then some { r with mode := .counting least (some []) }
  else if c.isDigit then
    match most with
    | none => some { r with mode := .counting (least ++ [c]) none }
    | some digits => some { r with mode := .counting least (some (digits ++ [c])) }
  else none

/-- What does not stand for itself in a class. -/
def classMarks : List Char :=
  ['[', '\\', '-', '&', '~']

/-- A character in a class that starts with some ranges. -/
def stepClass (r : Reader) (negated : Bool) (ranges : List (Char × Char)) (last : InClass)
    (c : Char) : Option Reader :=
  if c = ']' then
    match last.endClass ranges with
    | [] => none
    | ranges => some (r.add (.oneOf negated ranges))
  else match last with
    | .range =>
      if c ∈ classMarks then none
      else some { r with mode := .inClass negated ranges (.single c) }
    | .single a =>
      if c = '-' then some { r with mode := .inClass negated ranges (.dash a) }
      else if c ∈ classMarks then none
      else some { r with mode := .inClass negated (ranges ++ [(a, a)]) (.single c) }
    | .dash a =>
      if c ∈ classMarks ∨ c < a then none
      else some { r with mode := .inClass negated (ranges ++ [(a, c)]) .range }

def step (r : Reader) (c : Char) : Option Reader :=
  match r.mode with
  | .between => r.start c
  | .repeated => if c = '?' then r.makeLazy else r.start c
  | .escaped => if c ∈ metaCharacters then some (r.add (.char c)) else none
  | .opened =>
    if c = '?' then some { r with mode := .asked [] } else (r.openGroup .capturing).start c
  | .asked flags => r.stepFlags flags c
  | .counting least most => r.stepCount least most c
  | .classOpened =>
    if c = '^' then some { r with mode := .inClass true [] .range }
    else r.stepClass false [] .range c
  | .inClass negated ranges last => r.stepClass negated ranges last c

def run (r : Reader) (text : List Char) : Option Reader :=
  text.foldlM step r

def finish (r : Reader) : Option (List (List Item)) :=
  if r.mode.isResting && r.outer.isEmpty then some r.allBranches else none

end Reader

/-- The branches of an expression. -/
def read (text : List Char) : Option (List (List Item)) :=
  (Reader.run {} text).bind Reader.finish

/-- Behind an item, a brace or a question mark repeats it. -/
example : read ['a', '\x7b', '2', ',', '\x7d', '?', '|', '\\', '?', '+'] =
    some [[.repeated (.char 'a') (.counted 2 none) true],
      [.repeated (.char '?') .atLeastOne false]] := rfl

end AdFilter.Regex
