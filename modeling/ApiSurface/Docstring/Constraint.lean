import ApiSurface.ApiType.Basic
import ApiSurface.Number.Numeral
/-!
# Constraints in prose

What the description of a parameter says beyond its type: a set of values in braces, a default
after `defaults to`, a range in one of three wordings (an interval in brackets, two numbers after
`between`, a word such as `non-negative`).

Each wording is a recogniser: it looks at the text from one place on, knowing the character before
it, and `search` takes the first place where it succeeds.  Words are compared without regard to
case.
-/

namespace ApiSurface.Constraint

/-! ## 1. Searching -/

/-- Looks at a text from one place on, given the character before it. -/
abbrev Recognizer (α : Type) := Option Char → List Char → Option α

/-- The finding of a recogniser at the first place where it has one. -/
def searchFrom (find : Recognizer α) : Recognizer α
  | before, [] => find before []
  | before, c :: t =>
    match find before (c :: t) with
    | some found => some found
    | none => searchFrom find (some c) t

def search (find : Recognizer α) (t : List Char) : Option α := searchFrom find none t

/-- Whether a character, if there is one, belongs to a word. -/
def inWord : Option Char → Bool
  | some c => Text.isWord c
  | none => false

/-- The text after `word`, which is written in lower case. -/
def dropWord? : (word t : List Char) → Option (List Char)
  | [], t => some t
  | _ :: _, [] => none
  | w :: word, c :: t => if Text.foldCase c = w then dropWord? word t else none

/-- The text after `word` where it begins a word. -/
def startingWord? (word : String) (before : Option Char) (t : List Char) : Option (List Char) :=
  if inWord before then none else dropWord? word.toList t

/-- The text after one or more blanks. -/
def blanks? : List Char → Option (List Char)
  | c :: t => if Text.isBlank c then some (Text.trimStart t) else none
  | [] => none

/-- The text after `word`, or the whole text if it does not begin so. -/
def skipWord (word : String) (t : List Char) : List Char := (dropWord? word.toList t).getD t

/-! ## 2. Value sets -/

/-- The text between braces with no brace in it. -/
def braced : Recognizer (List Char)
  | _, '\x7b' :: t =>
    let isBrace := fun c => c == '\x7b' || c == '\x7d'
    let inner := t.takeWhile fun c => !isBrace c
    if inner ≠ [] ∧ (t.dropWhile fun c => !isBrace c).head? = some '\x7d' then some inner else none
  | _, _ => none

/-- A value without blanks and quotes around it. -/
def bareValue (t : List Char) : List Char :=
  let isQuote := fun c => c == '\'' || c == '"'
  Text.dropEndWhile isQuote ((Text.trim t).dropWhile isQuote)

/-- The first set of values named in a description. -/
def values? (description : List Char) : Option ApiType := do
  let inner ← search braced description
  match ((Text.splitOn ',' inner).map bareValue).filter fun v => !v.isEmpty with
  | [] => none
  | values => some (.enumOf (values.map String.ofList))

/-! ## 3. Defaults -/

/-- Nothing but blanks, after a full stop or none. -/
def isTail : List Char → Bool
  | '.' :: t => t.all Text.isBlank
  | t => t.all Text.isBlank

/-- The shortest start of a text, of one character at least, that leaves only a tail. -/
def upToTail : List Char → List Char
  | [] => []
  | c :: t => if isTail t then [c] else c :: upToTail t

/-- What follows one or more blanks; of a text of two or more blanks alone, the last of them. -/
def afterBlanks? (t : List Char) : Option (List Char) := do
  match ← blanks? t with
  | [] => if 2 ≤ t.length then t.getLast?.map fun c => [c] else none
  | rest => some rest

/-- A default at the end of a line. -/
def defaultClause : Recognizer (List Char) := fun before t => do
  let t ← startingWord? "default" before t
  let t ← blanks? (skipWord "s" t)
  let t ← (dropWord? "to".toList t).or (dropWord? "is".toList t)
  let t ← afterBlanks? t
  some (upToTail t)

/-- The default value named in a description: the first line with a clause decides. -/
def default? (description : List Char) : Option String := do
  let value ← (Text.lines description).findSome? (search defaultClause)
  match Text.trim value with
  | [] => none
  | value => some (String.ofList value)

/-! ## 4. Ranges -/

structure Range where
  min : Option Binary64 := none
  minInclusive : Bool := false
  max : Option Binary64 := none
  maxInclusive : Bool := false
  deriving DecidableEq

/-- A sign, if there is one, and the text after it. -/
def takeSign : List Char → List Char × List Char
  | '+' :: t => (['+'], t)
  | '-' :: t => (['-'], t)
  | t => ([], t)

/-- A sign or none, then one or more characters with `p`, and the text after them. -/
def signed? (p : Char → Bool) (t : List Char) : Option (List Char × List Char) :=
  let (sign, t) := takeSign t
  match t.takeWhile p with
  | [] => none
  | body => some (sign ++ body, t.dropWhile p)

/-- An interval in brackets after `in`, with the texts of its bounds. -/
structure Interval where
  minInclusive : Bool
  min : List Char
  max : List Char
  maxInclusive : Bool

/-- Whether a bracket includes its bound, and the text after the bracket. -/
def bracket? (inclusive exclusive : Char) : List Char → Option (Bool × List Char)
  | c :: t =>
    if c = inclusive then some (true, t) else if c = exclusive then some (false, t) else none
  | [] => none

/-- The text of a bound; any word can stand there. -/
def bound? : List Char → Option (List Char × List Char) :=
  signed? fun c => Text.isWord c || c == '.'

/-- The text after `the` and blanks, or the whole text. -/
def skipArticle (t : List Char) : List Char := ((dropWord? "the".toList t).bind blanks?).getD t

def interval : Recognizer Interval := fun before t => do
  let t ← blanks? (← startingWord? "in" before t)
  let t := skipArticle t
  let t := ((dropWord? "range".toList t).or (dropWord? "interval".toList t)).getD t
  let (minInclusive, t) ← bracket? '[' '(' (Text.trimStart t)
  let (min, t) ← bound? (Text.trimStart t)
  let t ← Text.dropStart? [','] (Text.trimStart t)
  let (max, t) ← bound? (Text.trimStart t)
  let (maxInclusive, _) ← bracket? ']' ')' (Text.trimStart t)
  some { minInclusive, min, max, maxInclusive }

/-- A side of an interval: a number, or an infinity for a side without a bound. -/
def side? (t : List Char) : Option (Option Binary64) :=
  let t := (t.dropWhile (· == '+')).map Text.lower
  let name := String.ofList t
  if name == "inf" || name == "infinity" || name == "-inf" || name == "-infinity" then some none
  else (Numeral.ofProse? t).map some

/-- The range of an interval; none if a bound is no number. -/
def Interval.range? (i : Interval) : Option Range := do
  let min ← side? i.min
  let max ← side? i.max
  some { min, minInclusive := i.minInclusive, max, maxInclusive := i.maxInclusive }

/-- A number with digits on both sides of its point, if it has one. -/
def number? (t : List Char) : Option (List Char × List Char) := do
  let (whole, t) ← signed? Text.isDigit t
  match t with
  | '.' :: u =>
    match u.takeWhile Text.isDigit with
    | [] => some (whole, t)
    | fraction => some (whole ++ '.' :: fraction, u.dropWhile Text.isDigit)
  | _ => some (whole, t)

/-- Two numbers after `between`. -/
def between : Recognizer (List Char × List Char) := fun before t => do
  let (low, t) ← number? (← blanks? (← startingWord? "between" before t))
  let t ← blanks? (← dropWord? "and".toList (← blanks? t))
  let (high, _) ← number? t
  some (low, high)

/-- A word that is not part of a longer one. -/
def wholeWord (word : String) : Recognizer Unit := fun before t => do
  let rest ← startingWord? word before t
  if inWord rest.head? then none else some ()

/-- The negation of a word, with a hyphen or without. -/
def negatedWord (word : String) : Recognizer Unit := fun before t => do
  let t ← startingWord? "non" before t
  let t := (Text.dropStart? ['-'] t).getD t
  let rest ← dropWord? word.toList t
  if inWord rest.head? then none else some ()

/-- The words for the sides of zero, the negated ones first. -/
def signWords : List (Recognizer Unit × Range) := [
  (negatedWord "negative", { min := some .zero, minInclusive := true }),
  (negatedWord "positive", { max := some .zero, maxInclusive := true }),
  (wholeWord "positive", { min := some .zero }),
  (wholeWord "negative", { max := some .zero })]

/-- The range that a description names: by an interval, else between two numbers, else by a word.
The first wording that occurs decides, also when its numbers cannot be read. -/
def range? (description : List Char) : Option Range :=
  match search interval description with
  | some i => i.range?
  | none =>
    match search between description with
    | some (low, high) => do
      let min ← Numeral.ofProse? low
      let max ← Numeral.ofProse? high
      some { min := some min, minInclusive := true, max := some max, maxInclusive := true }
    | none => (signWords.find? fun w => (search w.1 description).isSome).map Prod.snd

/-! ## 5. Narrowing a type -/

/-- The base of a range on values of a type. -/
def numericBase? : ApiType → Option BoundaryBase
  | .named _ "builtins.int" => some .int
  | .named _ "builtins.float" => some .float
  | _ => none

def Range.boundary (r : Range) (base : BoundaryBase) : ApiType :=
  .boundary { base, min := r.min, minInclusive := r.minInclusive,
              max := r.max, maxInclusive := r.maxInclusive }

/-- The types with the first numeric one narrowed to a range. -/
def Range.narrowFirst (r : Range) : List ApiType → Option (List ApiType)
  | [] => none
  | t :: more =>
    match numericBase? t with
    | some base => some (r.boundary base :: more)
    | none => (r.narrowFirst more).map (t :: ·)

/-- A numeric type narrowed to a range; of a union, its first numeric member. -/
def Range.narrow? (r : Range) (t : ApiType) : Option ApiType :=
  match numericBase? t with
  | some base => some (r.boundary base)
  | none =>
    match t with
    | .union types => (r.narrowFirst types).map .unionOf
    | _ => none

/-- A type narrowed to the range that a description names; none if there is no range, or nothing
to narrow. -/
def narrow? (t : ApiType) (description : List Char) : Option ApiType := do
  (← range? description).narrow? t

end ApiSurface.Constraint
