import AdFilter.FilterList
import AdFilter.Text.Split

/-!
# Directories

A directory is the files below it, each with its path and its contents. `read` and `locate` say
what opening a path for reading and for writing comes to: which file it is, or why there is none.
Of what lies outside nothing is known, except that the parent of the directory is one too.
-/

namespace AdFilter.CommandLine

structure Directory where
  files : List (List String × List UInt8) := []
  deriving DecidableEq, Repr, Inhabited

namespace Directory

inductive Place where
  | file (path : List String) (contents : List UInt8)
  | directory (path : List String)
  /-- a directory outside -/
  | outside
  deriving DecidableEq, Repr

/-- The names in a path, with an empty name before a slash at the start, after one at the end, and
between two that follow each other. -/
def names (path : String) : List String :=
  (Text.split (· == '/') path.toList).map String.ofList

def isHere (name : String) : Bool :=
  name = "" || name = "."

def child (d : Directory) (path : List String) (name : String) : Option Place :=
  let path := path ++ [name]
  match d.files.lookup path with
  | some contents => some (.file path contents)
  | none =>
    if d.files.any fun (file, _) => path.isPrefixOf file then some (.directory path) else none

def follow (d : Directory) : Place → List String → Except ReadError Place
  | place, [] => .ok place
  | .file _ _, _ :: _ => .error .notDirectory
  | .outside, name :: rest =>
    if isHere name || name = ".." then follow d .outside rest else .error .notFound
  | .directory path, name :: rest =>
    if isHere name then follow d (.directory path) rest
    else if name = ".." then
      follow d (if path.isEmpty then .outside else .directory path.dropLast) rest
    else
      match d.child path name with
      | some place => follow d place rest
      | none => .error .notFound

def origin (path : String) : Place :=
  if path.toList.head? = some '/' then .outside else .directory []

/-- What reading a path gives. A directory can be opened, but reading it fails. -/
def read (d : Directory) (path : String) : Except ReadError FilterList.Source := do
  if path.isEmpty then throw .notFound
  match ← d.follow (origin path) (names path) with
  | .file _ contents => return { chunks := [contents] }
  | .directory _ | .outside => return { chunks := [], failure := some .isDirectory }

/-- The file that opening a path for writing comes to. It need not exist, but its directory must,
and a slash at the end is only for directories. -/
def locate (d : Directory) (path : String) : Except ReadError (List String) := do
  let all := names path
  let trimmed := (all.reverse.dropWhile (·.isEmpty)).reverse
  match trimmed.getLast? with
  | none => throw (if path.isEmpty then .notFound else .isDirectory)
  | some name =>
    match ← d.follow (origin path) trimmed.dropLast with
    | .file _ _ => throw .notDirectory
    | .outside => throw (if isHere name || name = ".." then .isDirectory else .notFound)
    | .directory parent =>
      if trimmed.length < all.length || isHere name || name = ".." then throw .isDirectory
      match d.child parent name with
      | some (.directory _) => throw .isDirectory
      | _ => return parent ++ [name]

def create (d : Directory) (path : String) : Except ReadError Directory := do
  let file ← d.locate path
  return { files := d.files.filter (·.1 != file) ++ [(file, [])] }

def append (d : Directory) (path : String) (bytes : List UInt8) : Directory :=
  match d.locate path with
  | .error _ => d
  | .ok file => { files := d.files.map fun (name, contents) =>
      (name, if name = file then contents ++ bytes else contents) }

def fileName (path : String) : String :=
  match ((names path).filter (!isHere ·)).getLast? with
  | some name => if name = ".." then "" else name
  | none => ""

end Directory

end AdFilter.CommandLine
