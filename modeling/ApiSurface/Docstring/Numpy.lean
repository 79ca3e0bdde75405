import ApiSurface.Docstring.Sections
/-!
# Numpy style

A section begins with a heading underlined by dashes and reaches to the next one.  An entry begins
with `names : type`, several names sharing what is said; a result may give its type alone.
-/

namespace ApiSurface.Docstring.Numpy

def isUnderline (line : Line) : Bool :=
  let t := Text.trim line
  3 ≤ t.length && t.all (· == '-')

/-- Whether a section begins at the first of these lines. -/
def startsSection : List Line → Bool
  | l :: u :: _ => !Text.isBlankLine l && isUnderline u
  | _ => false

/-- The lines before the first section. -/
def beforeSection : List Line → List Line
  | [] => []
  | l :: more => if startsSection (l :: more) then [] else l :: beforeSection more

/-- The lines from the first section on. -/
def fromSection : List Line → List Line
  | [] => []
  | l :: more => if startsSection (l :: more) then l :: more else fromSection more

theorem length_fromSection_le (ls : List Line) : (fromSection ls).length ≤ ls.length := by
  induction ls with
  | nil => exact Nat.le_refl 0
  | cons l more ih =>
    simp only [fromSection]
    split
    · exact Nat.le_refl _
    · exact Nat.le_succ_of_le ih

/-- The sections in lines that begin with one. -/
def sections : List Line → List Section
  | l :: _ :: more =>
    { heading := Text.trim l, body := beforeSection more } :: sections (fromSection more)
  | _ => []
termination_by ls => ls.length
decreasing_by
  have := length_fromSection_le more
  simp only [List.length_cons]
  omega

def kind (heading : List Char) : SectionKind :=
  let name := String.ofList heading
  if ["Parameters", "Other Parameters", "Keyword Arguments"].contains name then .parameters
  else if name == "Attributes" then .attributes
  else if name == "Returns" || name == "Yields" then .results
  else .other

/-- The entries of a section; lines deeper than the first entry and above it are dropped. -/
def entries (body : List Line) : List (Line × List Line) :=
  (group (atBase body) ((filled body).dropWhile fun l => !atBase body l)).map fun e =>
    (Text.trim e.1, e.2)

/-- The entries of one head, which may name several things. -/
def named (entry : Line × List Line) : List Entry :=
  let (names, typeText) := match Text.splitAtFirst " : ".toList entry.1 with
    | some (names, t) => (names, Text.trim t)
    | none => (Text.dropEndWhile (· == ':') entry.1, [])
  let names := ((Text.splitOn ',' names).map Text.trim).filter fun n => !n.isEmpty
  names.map fun name => { name, typeText, description := flatten entry.2 }

def result (entry : Line × List Line) : Entry :=
  let (name, typeText) := match Text.splitAtFirst " : ".toList entry.1 with
    | some (name, t) => (Text.trim name, Text.trim t)
    | none => ([], entry.1)
  { name, typeText, description := flatten entry.2 }

def parse (t : List Char) : Parsed :=
  let ls := Text.lines t
  let found := sections (fromSection ls)
  let named := fun body => (entries body).flatMap named
  { description := Text.trim (joinLines (beforeSection ls))
    parameters := entriesOf kind named found .parameters
    attributes := entriesOf kind named found .attributes
    results := entriesOf kind (fun body => (entries body).map result) found .results }

end ApiSurface.Docstring.Numpy
