import AdFilter.CommandLine.Arguments
import AdFilter.CommandLine.Program
import AdFilter.Engine

/-!
# Sessions

A session is an engine made of some rule files, with a report of how they were loaded. A file that
cannot be opened is passed over with a note; one that fails while it is read ends everything.
-/

namespace AdFilter.CommandLine

structure Report where
  lists : Nat
  load : LoadStats
  hides : Option HideIndex.MergeCounts
  deriving DecidableEq, Repr

structure Session where
  engine : Engine
  report : Report

namespace Session

/-- The lists that are loaded so far, and what was said about them. -/
structure Lists where
  index : RuleIndex := {}
  load : LoadStats := {}
  count : Nat := 0
  notes : String := ""

def statusLine (position : Nat) (path : String) (s : LoadStats) : String :=
  "  [" ++ toString position ++ "] " ++ Directory.fileName path ++ " - " ++
    toString s.lines ++ " lines, " ++ toString s.rules ++ " rules, " ++
    toString s.hides ++ " hides, " ++ toString s.rejected ++ " rejected\n"

/-- Loads one more file. What is said stays said if the file fails. -/
def Lists.addFile (verbose : Bool) (lists : Lists) (position : Nat) (path : String) :
    Except ReadError FilterList.Source → Except (String × String) Lists
  | .error e => .ok { lists with
      notes := lists.notes ++ "Could not open rule file '" ++ path ++ "': " ++ e.message ++ "\n" }
  | .ok source =>
    match FilterList.loadSource lists.index source with
    | (.error e, _) => .error (lists.notes,
        "Failed to read '" ++ path ++ "': " ++ (Engine.Error.unreadable e).message)
    | (.ok stats, index) => .ok {
        index
        load := lists.load.merge stats
        count := lists.count + 1
        notes := lists.notes ++ if verbose then statusLine position path stats else "" }

def loadLists (verbose : Bool) (lists : Lists) (position : Nat) :
    List (String × Except ReadError FilterList.Source) → Except (String × String) Lists
  | [] => .ok lists
  | (path, result) :: rest => do
    loadLists verbose (← lists.addFile verbose position path result) (position + 1) rest

/-- Makes a session of what the rule files gave. An error comes with what was said before it. -/
def create (config : Engine.Config) (verbose : Bool)
    (files : List (String × Except ReadError FilterList.Source)) :
    Except (String × String) (String × Session) := do
  if files.isEmpty then throw ("", "No rule files specified")
  let lists ← loadLists verbose {} 0 files
  let (hides, index) :=
    if config.mergeByScope then
      let (counts, index) := lists.index.optimize
      (some counts, index)
    else (none, lists.index)
  match Engine.create index config with
  | .error e => throw (lists.notes, "Invalid configuration: " ++ e.message)
  | .ok engine =>
    return (lists.notes, { engine, report := { lists := lists.count, load := lists.load, hides } })

end Session

def Arguments.config (a : Arguments) : Engine.Config where
  cacheCapacity := a.cacheCapacity
  constraintMode := if a.hierarchical then .hierarchical else .exact
  mergeByScope := !a.noMerge

end AdFilter.CommandLine
