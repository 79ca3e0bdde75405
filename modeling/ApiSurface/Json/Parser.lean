import ApiSurface.Json.Basic
import ApiSurface.Json.Fault
import ApiSurface.Number.Numeral
/-!
# Reading JSON text

A strict reader: no comments, no trailing commas, no leading zeros, no raw controls inside texts.
Every reader takes the characters still to come and returns a value with the rest.  The recursion
runs on a fuel that starts above the number of characters; each step takes at least one of them.
-/

namespace ApiSurface.Json

/-- A value and the characters after it, or what is wrong. -/
abbrev Read (α : Type) := Except Fault (α × List Char)

/-- Arrays and objects may be nested less deep than this. -/
def nestingLimit : Nat := 128

/-! ## 1. Blanks and words -/

def isSpace (c : Char) : Bool := c == ' ' || c == '\t' || c == '\n' || c == '\r'

def skipSpace (t : List Char) : List Char := t.dropWhile isSpace

/-- The fault of a text that should have gone on differently. -/
def faultAt : List Char → Fault
  | [] => .unfinished
  | c :: _ => .unexpected c

/-- Takes the characters of a word. -/
def readWord (v : Json) : (word t : List Char) → Read Json
  | [], t => .ok (v, t)
  | _ :: _, [] => .error .unfinished
  | w :: word, c :: t => if w = c then readWord v word t else .error (.unexpected c)

/-! ## 2. Numbers -/

/-- At least one digit. -/
def readDigits (t : List Char) : Read (List Char) :=
  match Numeral.takeDigits t with
  | ([], rest) => .error (faultAt rest)
  | (digits, rest) => .ok (digits, rest)

/-- The digits before the point: a lone zero or digits that do not start with one. -/
def readWhole (t : List Char) : Read (List Char) :=
  match readDigits t with
  | .error f => .error f
  | .ok (digits, rest) =>
    match digits with
    | '0' :: d :: _ => .error (.unexpected d)
    | _ => .ok (digits, rest)

/-- The digits after a point, if there is one. -/
def readFraction : List Char → Read (Option (List Char))
  | '.' :: t => (readDigits t).map fun r => (some r.1, r.2)
  | t => .ok (none, t)

/-- The exponent after its mark, if there is one. -/
def readExponent (t : List Char) : Read (Option Int) :=
  match t with
  | [] => .ok (none, [])
  | c :: more =>
    if c == 'e' || c == 'E' then
      let (negative, digits) := match more with
        | '-' :: d => (true, d)
        | '+' :: d => (false, d)
        | d => (false, d)
      (readDigits digits).map fun r =>
        (some (if negative then -(Numeral.natOf r.1 : Int) else Numeral.natOf r.1), r.2)
    else .ok (none, t)

/-- The number with the given parts; one that no double holds is unreadable. -/
def numberOf (negative : Bool) (whole : List Char) (fraction : Option (List Char))
    (exponent : Option Int) : Json :=
  match fraction, exponent with
  | none, none =>
    match Numeral.wholeOf? negative whole with
    | some (.inl n) => .int n
    | some (.inr x) => .float x
    | none => .unreadable
  | _, _ =>
    match Numeral.ofData? negative whole (fraction.getD []) (exponent.getD 0) with
    | some x => .float x
    | none => .unreadable

/-- The parts of a number, its sign being read. -/
def readNumber (negative : Bool) (t : List Char) : Except Fault (Json × List Char) := do
  let (whole, t) ← readWhole t
  let (fraction, t) ← readFraction t
  let (exponent, t) ← readExponent t
  return (numberOf negative whole fraction exponent, t)

/-! ## 3. Texts -/

def hexDigit? (c : Char) : Option Nat :=
  if '0' ≤ c && c ≤ '9' then some (c.toNat - '0'.toNat)
  else if 'a' ≤ c && c ≤ 'f' then some (c.toNat - 'a'.toNat + 10)
  else if 'A' ≤ c && c ≤ 'F' then some (c.toNat - 'A'.toNat + 10)
  else none

/-- Four hexadecimal digits. -/
def readHex : List Char → Read Nat
  | a :: b :: c :: d :: t =>
    match hexDigit? a, hexDigit? b, hexDigit? c, hexDigit? d with
    | some a, some b, some c, some d => .ok (((a * 16 + b) * 16 + c) * 16 + d, t)
    | _, _, _, _ => .error (.unexpected a)
  | _ => .error .unfinished

def isHighSurrogate (n : Nat) : Bool := 0xd800 ≤ n && n < 0xdc00

def isLowSurrogate (n : Nat) : Bool := 0xdc00 ≤ n && n < 0xe000

/-- The character after a backslash that stands for one character. -/
def simpleEscape? : Char → Option Char
  | '"' => some '"'
  | '\\' => some '\\'
  | '/' => some '/'
  | 'b' => some '\x08'
  | 'f' => some '\x0c'
  | 'n' => some '\n'
  | 'r' => some '\r'
  | 't' => some '\t'
  | _ => none

/-- A unit of a text: a character, or a unit that is only half of one. -/
inductive TextUnit
  | char (c : Char)
  | half

/-- What follows a backslash.  Two escapes that form a surrogate pair are one character; a half
without its partner is a unit that no character answers to. -/
def readEscape : List Char → Except Fault (TextUnit × List Char)
  | [] => .error .unfinished
  | 'u' :: t => do
    let (n, t) ← readHex t
    if isHighSurrogate n then
      match t with
      | '\\' :: 'u' :: more =>
        let (m, more) ← readHex more
        if isLowSurrogate m then
          return (.char (Char.ofNat (0x10000 + (n - 0xd800) * 0x400 + (m - 0xdc00))), more)
        else return (.half, more)
      | _ => return (.half, t)
    else if isLowSurrogate n then return (.half, t)
    else return (.char (Char.ofNat n), t)
  | c :: t =>
    match simpleEscape? c with
    | some d => .ok (.char d, t)
    | none => .error (.unexpected c)

/-- The characters up to the closing quote, in reverse; none if half a character stands among
them. -/
def readText : (fuel : Nat) → Option (List Char) → List Char → Read (Option (List Char))
  | 0, _, t => .error (faultAt t)
  | _ + 1, _, [] => .error .unfinished
  | fuel + 1, read, c :: t =>
    if c == '"' then .ok (read, t)
    else if c == '\\' then
      match readEscape t with
      | .error f => .error f
      | .ok (.char d, t) => readText fuel (read.map (d :: ·)) t
      | .ok (.half, t) => readText fuel none t
    else if c.toNat < 0x20 then .error (.unexpected c)
    else readText fuel (read.map (c :: ·)) t

/-- A text whose opening quote is read; none if it is unreadable. -/
def readString (t : List Char) : Read (Option String) :=
  (readText (t.length + 1) (some []) t).map fun r =>
    (r.1.map fun cs => String.ofList cs.reverse, r.2)

/-! ## 4. Values -/

/-- An array or object at the given depth; past the limit it is unreadable. -/
def atDepth (depth : Nat) (v : Json) : Json := if depth < nestingLimit then v else .unreadable

mutual
/-- A value inside `depth` arrays and objects, blanks before it allowed. -/
def readValue : (fuel : Nat) → (depth : Nat) → List Char → Read Json
  | 0, _, t => .error (faultAt t)
  | fuel + 1, depth, t =>
    match skipSpace t with
    | [] => .error .unfinished
    | 'n' :: t => readWord .null "ull".toList t
    | 't' :: t => readWord (.bool true) "rue".toList t
    | 'f' :: t => readWord (.bool false) "alse".toList t
    | '"' :: t =>
      match readString t with
      | .error f => .error f
      | .ok (some s, t) => .ok (.string s, t)
      | .ok (none, t) => .ok (.unreadable, t)
    | '[' :: t =>
      match skipSpace t with
      | ']' :: t => .ok (atDepth (depth + 1) (.array []), t)
      | t => readItems fuel (depth + 1) [] t
    | '\x7b' :: t =>
      match skipSpace t with
      | '\x7d' :: t => .ok (atDepth (depth + 1) (.object []), t)
      | t => readMembers fuel (depth + 1) (some []) t
    | '-' :: t => readNumber true t
    | t => readNumber false t

/-- The items of an array that is not empty, up to its bracket. -/
def readItems : (fuel : Nat) → (depth : Nat) → List Json → List Char → Read Json
  | 0, _, _, t => .error (faultAt t)
  | fuel + 1, depth, items, t =>
    match readValue fuel depth t with
    | .error f => .error f
    | .ok (v, t) =>
      match skipSpace t with
      | ',' :: t => readItems fuel depth (v :: items) t
      | ']' :: t => .ok (atDepth depth (.array (v :: items).reverse), t)
      | t => .error (faultAt t)

/-- The members of an object that is not empty, up to its brace; none if a key is unreadable. -/
def readMembers : (fuel : Nat) → (depth : Nat) → Option Members → List Char → Read Json
  | 0, _, _, t => .error (faultAt t)
  | fuel + 1, depth, members, t =>
    match skipSpace t with
    | '"' :: t =>
      match readString t with
      | .error f => .error f
      | .ok (key, t) =>
        match skipSpace t with
        | ':' :: t =>
          match readValue fuel depth t with
          | .error f => .error f
          | .ok (v, t) =>
            let members := match key, members with
              | some key, some members => some ((key, v) :: members)
              | _, _ => none
            match skipSpace t with
            | ',' :: t => readMembers fuel depth members t
            | '\x7d' :: t =>
              .ok (match members with
                | some members => atDepth depth (.object members.reverse)
                | none => .unreadable, t)
            | t => .error (faultAt t)
        | t => .error (faultAt t)
    | t => .error (faultAt t)
end

/-- The value that a text holds, with nothing but blanks around it. -/
def parse (text : String) : Except Fault Json :=
  let t := text.toList
  match readValue (2 * t.length + 2) 0 t with
  | .error f => .error f
  | .ok (v, rest) => if (skipSpace rest).isEmpty then .ok v else .error .trailing

end ApiSurface.Json
