import AdFilter.CommandLine.Directory
import AdFilter.Text.Utf8

/-!
# Programs

A program is what a command does to the world outside, step by step: each step says what is done,
and how to go on with what comes back. `run` carries a program out in a world that is a value, so
that the whole command can be reasoned about; the executable carries out the same steps for real.
-/

namespace AdFilter.CommandLine

inductive Program where
  | exit (code : Nat)
  | print (bytes : List UInt8) (next : Program)
  /-- print to the error output -/
  | complain (text : String) (next : Program)
  | read (path : String) (next : Except ReadError FilterList.Source → Program)
  /-- read all of the standard input -/
  | input (next : List UInt8 → Program)
  /-- open a file for writing, and make it empty -/
  | create (path : String) (next : Option ReadError → Program)
  | append (path : String) (bytes : List UInt8) (next : Program)
  /-- look at the clock, which counts nanoseconds -/
  | time (next : Nat → Program)

namespace Program

def printText (text : String) (next : Program) : Program :=
  .print (Text.utf8 text.toList) next

def fail (message : String) : Program :=
  .complain ("Error: " ++ message ++ "\n") (.exit 1)

def readAll (next : List (String × Except ReadError FilterList.Source) → Program) :
    List String → Program
  | [] => next []
  | path :: paths =>
    .read path fun result => readAll (fun rest => next ((path, result) :: rest)) paths

end Program

/-- What a program can see. The clock stands still. -/
structure World where
  directory : Directory := {}
  input : List UInt8 := []
  clock : Nat := 0
  deriving DecidableEq, Repr, Inhabited

structure Outcome where
  code : Nat
  stdout : List UInt8
  stderr : String
  directory : Directory
  deriving DecidableEq, Repr, Inhabited

def Program.run : Program → World → Outcome
  | .exit code, w => { code, stdout := [], stderr := "", directory := w.directory }
  | .print bytes next, w =>
    let rest := next.run w
    { rest with stdout := bytes ++ rest.stdout }
  | .complain text next, w =>
    let rest := next.run w
    { rest with stderr := text ++ rest.stderr }
  | .read path next, w => (next (w.directory.read path)).run w
  | .input next, w => (next w.input).run w
  | .create path next, w =>
    match w.directory.create path with
    | .ok directory => (next none).run { w with directory }
    | .error e => (next (some e)).run w
  | .append path bytes next, w => next.run { w with directory := w.directory.append path bytes }
  | .time next, w => (next w.clock).run w

end AdFilter.CommandLine
