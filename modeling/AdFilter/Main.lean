import AdFilter.CommandLine.Commands

/-!
# The executable

Carries out the program of the command line with the real files, streams and clock.
-/

namespace AdFilter.CommandLine

/-- The number of a system error. Some operations report it negated. -/
def errorNumber (code : UInt32) : Nat :=
  min code.toNat (0x100000000 - code.toNat)

def reasonOf (e : IO.Error) : ReadError :=
  match e with
  | .noFileOrDirectory .. => .notFound
  | .inappropriateType _ code _ | .resourceExhausted _ code _ =>
    match errorNumber code with
    | 20 => .notDirectory
    | 21 => .isDirectory
    | _ => .other (toString e)
  | _ => .other (toString e)

/-- Opens and reads a file. That a directory is none is found out only when it is read. -/
def readFile (path : String) : IO (Except ReadError FilterList.Source) := do
  try
    let bytes ← IO.FS.readBinFile path
    return .ok { chunks := [bytes.data.toList] }
  catch e =>
    match reasonOf e with
    | .isDirectory => return .ok { chunks := [], failure := some .isDirectory }
    | reason => return .error reason

def createFile (path : String) : IO (Option ReadError) := do
  try
    IO.FS.writeBinFile path .empty
    return none
  catch e => return some (reasonOf e)

def appendFile (path : String) (bytes : List UInt8) : IO Unit :=
  IO.FS.withFile path .append fun handle => handle.write bytes.toByteArray

def perform : Program → IO UInt32
  | .exit code => return UInt32.ofNat code
  | .print bytes next => do
    (← IO.getStdout).write bytes.toByteArray
    perform next
  | .complain text next => do
    IO.eprint text
    perform next
  | .read path next => do perform (next (← readFile path))
  | .input next => do perform (next (← (← IO.getStdin).readBinToEnd).data.toList)
  | .create path next => do perform (next (← createFile path))
  | .append path bytes next => do
    appendFile path bytes
    perform next
  | .time next => do perform (next (← IO.monoNanosNow))

end AdFilter.CommandLine

def main (args : List String) : IO UInt32 :=
  AdFilter.CommandLine.perform (AdFilter.CommandLine.program .standard args)
