/-!
# JSON reports

The values that reports are made of, and how they are written: one field in a line, in the given
order, two blanks for each level. Quotes, backslashes and control characters are escaped, and
nothing else is.
-/

namespace AdFilter.CommandLine

inductive Json where
  | null
  | bool (b : Bool)
  | number (n : Nat)
  /-- a number that is already written -/
  | numeral (text : String)
  | string (s : String)
  | object (fields : List (String × Json))

namespace Json

/-- A control character by its code point, in four hexadecimal digits. -/
def escapeControl (c : Char) : List Char :=
  let digits := Nat.toDigits 16 c.toNat
  ['\\', 'u'] ++ List.replicate (4 - digits.length) '0' ++ digits

def escape (c : Char) : List Char :=
  match c with
  | '"' => ['\\', '"']
  | '\\' => ['\\', '\\']
  | '\x08' => ['\\', 'b']
  | '\x0c' => ['\\', 'f']
  | '\n' => ['\\', 'n']
  | '\r' => ['\\', 'r']
  | '\t' => ['\\', 't']
  | c => if c.toNat < 0x20 then escapeControl c else [c]

def encodeString (s : String) : String :=
  String.ofList ('"' :: s.toList.flatMap escape ++ ['"'])

def indentation (level : Nat) : String :=
  String.ofList (List.replicate (2 * level) ' ')

mutual

def render (level : Nat) : Json → String
  | .null => "null"
  | .bool b => toString b
  | .number n => toString n
  | .numeral text => text
  | .string s => encodeString s
  | .object fields =>
    "\x7b\n" ++ renderFields (level + 1) fields ++ indentation level ++ "\x7d"

def renderFields (level : Nat) : List (String × Json) → String
  | [] => ""
  | [(name, value)] =>
    indentation level ++ encodeString name ++ ": " ++ render level value ++ "\n"
  | (name, value) :: rest =>
    indentation level ++ encodeString name ++ ": " ++ render level value ++ ",\n" ++
      renderFields level rest

end

instance : ToString Json := ⟨render 0⟩

end Json

end AdFilter.CommandLine
