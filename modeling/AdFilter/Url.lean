import AdFilter.Text.Split

/-!
# Hosts of addresses

Of an address only the host is ever needed. `hostOf` finds it without reading the rest: `none` is
an address that no host can be read from, and the empty host belongs to an address without an
authority, such as `about:blank` or a relative one. `sourceHost` also takes a bare host name,
which is then its own host.
-/

namespace AdFilter.Url

/-- ASCII control characters, which no address may hold. -/
def isControl (c : Char) : Bool :=
  c.toNat < 0x20 || c.toNat == 0x7F

/-- A scheme is an ASCII letter, then ASCII letters, digits, `+`, `-` and `.`. -/
def isScheme : List Char → Bool
  | [] => false
  | c :: rest => c.isAlpha && rest.all fun d => d.isAlphanum || d == '+' || d == '-' || d == '.'

/-- What follows the scheme of an address. -/
inductive Tail where
  /-- the authority and what comes after it -/
  | authority (rest : List Char)
  | noAuthority
  deriving DecidableEq, Repr

def tailOf : List Char → Tail
  | '/' :: '/' :: rest => .authority rest
  | _ => .noAuthority

/-- Reads the scheme of an address, if it has one. A colon that comes before any slash ends a
scheme, so what stands before it must be one. -/
def splitScheme : List Char → Option Tail
  | '/' :: '/' :: rest => some (.authority rest)
  | s =>
    match s.dropWhile (fun c => c != ':' && c != '/') with
    | ':' :: rest =>
      if isScheme (s.takeWhile fun c => c != ':' && c != '/') then some (tailOf rest) else none
    | _ => some .noAuthority

def endsAuthority (c : Char) : Bool :=
  c == '/' || c == '?' || c == '#'

/-- The part of a text after its last `@`. -/
def afterUserinfo (s : List Char) : List Char :=
  (s.reverse.takeWhile (· != '@')).reverse

def hostChars (s : List Char) : Option (List Char) :=
  if s.any isControl then none
  else
    match splitScheme s with
    | none => none
    | some .noAuthority => some []
    | some (.authority rest) =>
      let host := afterUserinfo (rest.takeWhile (!endsAuthority ·))
      if host.contains ' ' then none else some host

/-- The host of an address, with its port. -/
def hostOf (url : String) : Option String :=
  (hostChars url.toList).map String.ofList

/-- A host without its port. An address in brackets is kept as it is. -/
def stripPort (host : List Char) : List Char :=
  if host.head? = some '[' then host
  else
    match host.reverse.dropWhile Char.isDigit with
    | ':' :: name => name.reverse
    | _ => host

def sourceHostChars (s : List Char) : List Char :=
  match hostChars s with
  | some (c :: host) => stripPort (c :: host)
  | _ => s

/-- The host name of a source, which is the address of a page or a bare host name. -/
def sourceHost (source : String) : String :=
  String.ofList (sourceHostChars source.toList)

end AdFilter.Url
