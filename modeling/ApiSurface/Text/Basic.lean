import ApiSurface.Text.HiddenRanges
import ApiSurface.Text.WordRanges
/-!
# Character classes, lines and trimming

Texts are handled as lists of characters.  The classes are those of Unicode, not of ASCII: a
no-break space is blank and trimmed away, and a letter of any script is a word character.  Case is
the exception; only ASCII letters change case, and `foldCase` adds the two characters outside ASCII
whose simple case folding is an ASCII letter.
-/

namespace ApiSurface.Text

/-! ## 1. Classes of characters -/

/-- Whether a character lies in one of the ranges, ends included. -/
def inRanges (ranges : List (Nat × Nat)) (c : Char) : Bool :=
  ranges.any fun r => r.1 ≤ c.toNat && c.toNat ≤ r.2

/-- The characters with the property `White_Space`. -/
def blankRanges : List (Nat × Nat) := [
  (0x9, 0xd), (0x20, 0x20), (0x85, 0x85), (0xa0, 0xa0), (0x1680, 0x1680), (0x2000, 0x200a),
  (0x2028, 0x2029), (0x202f, 0x202f), (0x205f, 0x205f), (0x3000, 0x3000)]

def isBlank (c : Char) : Bool := inRanges blankRanges c

def isAsciiDigit (c : Char) : Bool := '0' ≤ c && c ≤ '9'

/-- A decimal digit of any script. -/
def isDigit (c : Char) : Bool :=
  if c.toNat < 0x80 then isAsciiDigit c else inRanges digitRanges c

def isWord (c : Char) : Bool :=
  if c.toNat < 0x80 then c.isAlphanum || c == '_' else inRanges wordRanges c

/-- A character that a quoted text spells out by its number. -/
def isHidden (c : Char) : Bool :=
  if 0x20 ≤ c.toNat && c.toNat < 0x7f then false else inRanges hiddenRanges c

/-- ASCII capitals become small letters; every other character stays. -/
def lower (c : Char) : Char := c.toLower

/-- Simple case folding, as far as it lands on ASCII letters: besides the capitals, the long s
folds to `s` and the kelvin sign to `k`. -/
def foldCase (c : Char) : Char :=
  if c == 'ſ' then 's' else if c == 'K' then 'k' else lower c

/-! ## 2. Trimming, splitting, joining -/

def trimStart (t : List Char) : List Char := t.dropWhile isBlank

/-- The text without the longest stretch at its end on which `p` holds. -/
def dropEndWhile (p : Char → Bool) (t : List Char) : List Char := (t.reverse.dropWhile p).reverse

def trimEnd (t : List Char) : List Char := dropEndWhile isBlank t

def trim (t : List Char) : List Char := trimEnd (trimStart t)

/-- The stretches between the occurrences of `sep`, one more than there are occurrences. -/
def splitOn (sep : Char) : List Char → List (List Char)
  | [] => [[]]
  | c :: t =>
    if c = sep then [] :: splitOn sep t
    else match splitOn sep t with
      | [] => [[c]]
      | piece :: more => (c :: piece) :: more

/-- The pieces with `sep` between neighbours. -/
def joinWith (sep : List Char) : List (List Char) → List Char
  | [] => []
  | [t] => t
  | t :: more => t ++ sep ++ joinWith sep more

/-- The text after `start`, if it begins so. -/
def dropStart? : (start t : List Char) → Option (List Char)
  | [], t => some t
  | _ :: _, [] => none
  | a :: start, c :: t => if a = c then dropStart? start t else none

/-- The text before and after the first occurrence of `mark`. -/
def splitAtFirst (mark : List Char) : List Char → Option (List Char × List Char)
  | [] => if mark = [] then some ([], []) else none
  | c :: t =>
    match dropStart? mark (c :: t) with
    | some rest => some ([], rest)
    | none => (splitAtFirst mark t).map fun parts => (c :: parts.1, parts.2)

/-- Equality of texts up to the case of ASCII letters. -/
def sameIgnoringCase (s t : List Char) : Bool := s.map lower == t.map lower

/-! ## 3. Lines -/

/-- A line without the carriage return that closes it. -/
def dropReturn (line : List Char) : List Char :=
  if line.getLast? = some '\r' then line.dropLast else line

/-- The lines of a text.  A line feed closes a line, together with one carriage return before it;
what follows the last line feed is a line of its own unless it is empty. -/
def lines (t : List Char) : List (List Char) :=
  let pieces := splitOn '\n' t
  let last := pieces.getLast?.getD []
  pieces.dropLast.map dropReturn ++ (if last = [] then [] else [last])

/-- How many blank characters a line begins with. -/
def indentation (line : List Char) : Nat := (line.takeWhile isBlank).length

def isBlankLine (line : List Char) : Bool := (trim line).isEmpty

/-- The least of some numbers; zero if there are none. -/
def least : List Nat → Nat
  | [] => 0
  | n :: more => more.foldl Nat.min n

/-- The least indentation among the lines that are not blank. -/
def commonIndentation (ls : List (List Char)) : Nat :=
  least ((ls.filter fun l => !isBlankLine l).map indentation)

/-! ## 4. Dotted names -/

def components (name : String) : List String := (splitOn '.' name.toList).map String.ofList

def lastComponent (name : String) : String := (components name).getLast?.getD name

def joinDots (parts : List String) : String :=
  String.ofList (joinWith ['.'] (parts.map String.toList))

/-- The name without its last component, if it has more than one. -/
def parentName? (name : String) : Option String :=
  match components name with
  | [] | [_] => none
  | parts => some (joinDots parts.dropLast)

/-- `scope.name`, or `name` alone in the empty scope. -/
def qualify (scope name : String) : String :=
  if scope.isEmpty then name else scope ++ "." ++ name

/-- Whether `name` is `scope` or lies below it. -/
def isWithin (scope name : String) : Bool :=
  match dropStart? scope.toList name.toList with
  | some [] => true
  | some (c :: _) => c == '.'
  | none => false

end ApiSurface.Text
