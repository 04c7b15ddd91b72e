import AdFilter.CommandLine.Topic

/-!
# Help

The page that answers a question for help: what the topic is about, how the program is called, and
tables of the commands, arguments and switches. `length_pad` is why the right columns of a table
stand below each other.
-/

namespace AdFilter.CommandLine

def pad (width : Nat) (s : String) : String :=
  s ++ String.ofList (List.replicate (width - s.length) ' ')

theorem length_pad (width : Nat) (s : String) : (pad width s).length = max width s.length := by
  simp [pad]
  omega

/-- A table with a title: names to the left, and what they mean to the right. There is none if it
would be empty. -/
def table (title : String) (rows : List (String × String)) : String :=
  let width := rows.foldl (fun width row => max width row.1.length) 0
  let line (row : String × String) : String := "  " ++ pad width row.1 ++ "  " ++ row.2 ++ "\n"
  if rows.isEmpty then "" else "\n" ++ title ++ ":\n" ++ String.join (rows.map line)

def programName : String := "bw-cli"

namespace Topic

/-- How the program is called. The rule files stand before the command. -/
def usage (t : Topic) : String :=
  let options := if t.switches.isEmpty then [] else ["[OPTIONS]"]
  " ".intercalate (programName :: match t with
    | .program => options ++ [Switch.rules.form, "<COMMAND>"]
    | _ => Switch.rules.form :: t.words ++ options ++ t.positionals.map (·.label))

def commands : Topic → List (String × String)
  | .program =>
    CommandName.all.map (fun name => (name.word, name.about)) ++ [(helpWord, Topic.help.about)]
  | _ => []

def page (t : Topic) : String :=
  t.about ++ "\n\nUsage: " ++ t.usage ++ "\n" ++
  table "Commands" t.commands ++
  table "Arguments" (t.positionals.map fun p => (p.label, p.about)) ++
  table "Options" (t.switches.map fun s => (s.label, s.about))

end Topic

end AdFilter.CommandLine
