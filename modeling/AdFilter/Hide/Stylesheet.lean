import AdFilter.Hide.Entry
import AdFilter.Text.Quoted

/-!
# Stylesheets

Some entries as a stylesheet. It is written piece by piece; `flatten_flatMap_pieces` says that the
pieces make up the text.
-/

namespace AdFilter.HideEntry

def declaration : String :=
  "\x7bdisplay: none !important;\x7d\n"

/-- The line that tells the scope of an entry. -/
def header (e : HideEntry) : String :=
  "/* domains: " ++ Text.quoted (toString e.scope.domains) ++
    ", exclude: " ++ Text.quoted (toString e.scope.exclude) ++ " */\n"

/-- What an entry adds to the style of its pages. An empty line ends it. -/
def css (e : HideEntry) : String :=
  e.header ++ String.join (e.selectors.map (· ++ declaration)) ++ "\n"

def stylesheet (entries : List HideEntry) : String :=
  String.join (entries.map css)

def selectorCount (entries : List HideEntry) : Nat :=
  (entries.flatMap (·.selectors)).length

/-! ## Pieces -/

/-- The text of an entry in the pieces in which it is written. -/
def pieces (e : HideEntry) : List (List Char) :=
  "/* domains: ".toList :: Text.quotedPieces (toString e.scope.domains).toList ++
    ", exclude: ".toList :: Text.quotedPieces (toString e.scope.exclude).toList ++
    " */\n".toList :: e.selectors.flatMap (fun s => [s.toList, declaration.toList]) ++
    ["\n".toList]

theorem flatten_selectors (selectors : List String) :
    (selectors.flatMap fun s => [s.toList, declaration.toList]).flatten =
      (String.join (selectors.map (· ++ declaration))).toList := by
  rw [String.toList_join]
  induction selectors with
  | nil => rfl
  | cons s selectors ih =>
    rw [List.flatMap_cons, List.flatten_append, ih, List.map_cons, List.flatMap_cons,
      String.toList_append]
    simp only [List.flatten_cons, List.flatten_nil, List.append_nil, List.append_assoc]

theorem flatten_pieces (e : HideEntry) : e.pieces.flatten = e.css.toList := by
  unfold pieces css header
  generalize "/* domains: " = opening, ", exclude: " = middle, " */\n" = closing, "\n" = empty
  simp [Text.quoted, Text.flatten_quotedPieces, flatten_selectors]

theorem flatten_flatMap_pieces (entries : List HideEntry) :
    (entries.flatMap (·.pieces)).flatten = (stylesheet entries).toList := by
  rw [stylesheet, String.toList_join]
  induction entries with
  | nil => rfl
  | cons e entries ih =>
    rw [List.flatMap_cons, List.flatten_append, ih, flatten_pieces, List.map_cons,
      List.flatMap_cons]

end AdFilter.HideEntry

/-! ## Writing and counting -/

namespace AdFilter

/-- A stylesheet under way, and the number of selectors that are in it. -/
structure Sheet where
  text : String := ""
  selectors : Nat := 0
  deriving DecidableEq, Repr

namespace Sheet

def addSelector (s : Sheet) (selector : String) : Sheet where
  text := s.text ++ selector ++ HideEntry.declaration
  selectors := s.selectors + 1

def addEntry (s : Sheet) (e : HideEntry) : Sheet :=
  let filled := e.selectors.foldl addSelector { s with text := s.text ++ e.header }
  { filled with text := filled.text ++ "\n" }

def ofEntries (entries : List HideEntry) : Sheet :=
  entries.foldl addEntry {}

theorem foldl_addSelector (s : Sheet) (selectors : List String) :
    selectors.foldl addSelector s =
      { text := s.text ++ String.join (selectors.map (· ++ HideEntry.declaration))
        selectors := s.selectors + selectors.length } := by
  induction selectors generalizing s with
  | nil => simp
  | cons selector selectors ih =>
    rw [List.foldl_cons, ih, addSelector, List.map_cons, List.length_cons]
    simp [String.append_assoc, Nat.add_assoc, Nat.add_comm 1]

theorem foldl_addEntry (s : Sheet) (entries : List HideEntry) :
    entries.foldl addEntry s =
      { text := s.text ++ HideEntry.stylesheet entries
        selectors := s.selectors + HideEntry.selectorCount entries } := by
  induction entries generalizing s with
  | nil => simp [HideEntry.stylesheet, HideEntry.selectorCount]
  | cons e entries ih =>
    have hsheet : HideEntry.stylesheet (e :: entries) = e.css ++ HideEntry.stylesheet entries := by
      rw [HideEntry.stylesheet, List.map_cons, String.join_cons, HideEntry.stylesheet]
    have hcount : HideEntry.selectorCount (e :: entries) =
        e.selectors.length + HideEntry.selectorCount entries := by
      rw [HideEntry.selectorCount, List.flatMap_cons, List.length_append, HideEntry.selectorCount]
    rw [List.foldl_cons, ih, addEntry, foldl_addSelector, hsheet, hcount, HideEntry.css]
    simp only [String.append_assoc, Nat.add_assoc]

/-- What is written is the stylesheet, and what is counted is its selectors. -/
theorem ofEntries_eq (entries : List HideEntry) :
    ofEntries entries =
      { text := HideEntry.stylesheet entries, selectors := HideEntry.selectorCount entries } := by
  rw [ofEntries, foldl_addEntry, String.empty_append, Nat.zero_add]

end Sheet

end AdFilter
