import ApiSurface.Docstring.Sections
/-!
# Google style

A section begins with a heading that ends in a colon, and holds the lines indented deeper than the
heading.  An entry is `name (type): description`, or `type: description` for a result.
-/

namespace ApiSurface.Docstring.Google

def isUpper (c : Char) : Bool := 'A' ≤ c && c ≤ 'Z'

def isLetter (c : Char) : Bool := isUpper c || ('a' ≤ c && c ≤ 'z')

/-- The heading on a line: letters and spaces after a capital, then a colon. -/
def heading? (line : Line) : Option (List Char) :=
  let t := Text.trim line
  match t.getLast?, t.dropLast with
  | some ':', c :: more =>
    if isUpper c && more.all fun m => isLetter m || m == ' ' then some (c :: more) else none
  | _, _ => none

def kind (heading : List Char) : SectionKind :=
  let name := String.ofList heading
  if ["Args", "Arguments", "Parameters", "Params", "Keyword Args", "Keyword Arguments",
    "Other Parameters"].contains name then .parameters
  else if name == "Attributes" then .attributes
  else if ["Returns", "Return", "Yields", "Yield"].contains name then .results
  else .other

/-- Whether a line belongs to the section under a heading. -/
def isUnder (heading line : Line) : Bool :=
  Text.isBlankLine line || Text.indentation heading < Text.indentation line

/-- The sections in some lines; what stands in none is dropped. -/
def sections : List Line → List Section
  | [] => []
  | l :: more =>
    match heading? l with
    | none => sections more
    | some heading =>
      { heading, body := more.takeWhile (isUnder l) } :: sections (more.dropWhile (isUnder l))
termination_by ls => ls.length
decreasing_by
  · exact Nat.lt_succ_self _
  · exact Nat.lt_succ_of_le (List.dropWhile_sublist _).length_le

/-- The entries of a section, each with its first line trimmed. -/
def entries (body : List Line) : List (Line × List Line) :=
  (group (atBase body) (filled body)).map fun e => (Text.trim e.1, e.2)

/-- A name with at most two stars, and the text after it. -/
def argumentName? (t : List Char) : Option (List Char × List Char) :=
  let stars := t.takeWhile (· == '*')
  let rest := t.dropWhile (· == '*')
  match rest.takeWhile Text.isWord with
  | [] => none
  | name => if stars.length ≤ 2 then some (stars ++ name, rest.dropWhile Text.isWord) else none

/-- The text after blanks and a colon. -/
def afterColon? (t : List Char) : Option (List Char) := Text.dropStart? [':'] (Text.trimStart t)

/-- The text up to the first parenthesis that closes before a colon, and the text after that. -/
def closingAtColon? : List Char → Option (List Char × List Char)
  | [] => none
  | c :: t =>
    match if c = ')' then afterColon? t else none with
    | some rest => some ([], rest)
    | none => (closingAtColon? t).map fun parts => (c :: parts.1, parts.2)

/-- An entry `name (type): description`, where the type may be missing; none for other lines. -/
def argument? (entry : Line × List Line) : Option Entry := do
  let (name, t) ← argumentName? entry.1
  let (typeText, description) ← match Text.trimStart t with
    | '(' :: u => closingAtColon? u
    | u => (afterColon? u).map fun d => ([], d)
  some { name, typeText := Text.trim typeText, description := flatten (description :: entry.2) }

/-- An entry `type: description`, or a description alone. -/
def result (entry : Line × List Line) : Entry :=
  match Text.splitAtFirst [':'] entry.1 with
  | some (c :: t, description) =>
    { typeText := Text.trim (c :: t), description := flatten (description :: entry.2) }
  | _ => { description := flatten (entry.1 :: entry.2) }

def parse (t : List Char) : Parsed :=
  let isText := fun l => (heading? l).isNone
  let ls := Text.lines t
  let found := sections (ls.dropWhile isText)
  let arguments := fun body => (entries body).filterMap argument?
  { description := Text.trim (joinLines (ls.takeWhile isText))
    parameters := entriesOf kind arguments found .parameters
    attributes := entriesOf kind arguments found .attributes
    results := entriesOf kind (fun body => (entries body).map result) found .results }

end ApiSurface.Docstring.Google
