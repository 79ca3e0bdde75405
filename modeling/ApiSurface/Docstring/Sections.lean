import ApiSurface.Text.Basic
/-!
# Docstrings and their sections

A docstring is cleaned first: blank lines at its ends go, and so does the indentation that all
lines after the first share.  What it documents stands in sections, whose entries begin at the
least indentation of their section; deeper lines continue the entry above them.
-/

namespace ApiSurface.Docstring

abbrev Line := List Char

/-! ## 1. Cleaning -/

/-- A line after the first, with `indent` removed, or all its indentation if it has less. -/
def dedent (indent : Nat) (line : Line) : Line :=
  if indent ≤ Text.indentation line then Text.trimEnd (line.drop indent) else Text.trim line

def dropBlankEdges (ls : List Line) : List Line :=
  ((ls.dropWhile List.isEmpty).reverse.dropWhile List.isEmpty).reverse

def cleanLines : List Line → List Line
  | [] => []
  | first :: more =>
    dropBlankEdges (Text.trim first :: more.map (dedent (Text.commonIndentation more)))

def joinLines (ls : List Line) : List Char := Text.joinWith ['\n'] ls

/-- A docstring without the layout of the code around it. -/
def clean (t : List Char) : List Char := joinLines (cleanLines (Text.lines t))

/-- The words of a description on one line: blank lines dropped, the others trimmed. -/
def flatten (ls : List Line) : List Char :=
  Text.joinWith [' '] ((ls.map Text.trim).filter fun l => !l.isEmpty)

/-! ## 2. Entries -/

/-- One thing documented in a section. -/
structure Entry where
  name : List Char := []
  typeText : List Char := []
  description : List Char := []
  deriving DecidableEq

/-- A docstring taken apart. -/
structure Parsed where
  description : List Char := []
  parameters : List Entry := []
  attributes : List Entry := []
  results : List Entry := []
  deriving DecidableEq

/-- What the entries of a section document. -/
inductive SectionKind
  | parameters | attributes | results | other
  deriving DecidableEq

/-- A heading with the lines under it. -/
structure Section where
  heading : List Char
  body : List Line

/-- The entry for a name; the stars of an entry's name do not count. -/
def findEntry (entries : List Entry) (name : String) : Option Entry :=
  entries.find? fun e => e.name.dropWhile (· == '*') == name.toList

/-- Lines that are not blank. -/
def filled (ls : List Line) : List Line := ls.filter fun l => !Text.isBlankLine l

/-- Puts each line that starts an entry together with the lines up to the next start. -/
def group (starts : Line → Bool) : List Line → List (Line × List Line)
  | [] => []
  | l :: more =>
    (l, more.takeWhile fun m => !starts m) :: group starts (more.dropWhile fun m => !starts m)
termination_by ls => ls.length
decreasing_by exact Nat.lt_succ_of_le (List.dropWhile_sublist _).length_le

/-- Whether a line stands at the least indentation of a section. -/
def atBase (body : List Line) (l : Line) : Bool :=
  Text.indentation l == Text.commonIndentation body

/-- The sections of one kind, taken together. -/
def entriesOf (kind : List Char → SectionKind) (read : List Line → List Entry)
    (sections : List Section) (wanted : SectionKind) : List Entry :=
  (sections.filter fun s => kind s.heading == wanted).flatMap fun s => read s.body

end ApiSurface.Docstring
