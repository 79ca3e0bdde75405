import ApiSurface.Json.Basic
import ApiSurface.Number.Decimal
/-!
# Writing JSON text

Two forms: on one line without blanks, and on indented lines.  Both escape the same characters:
the quote, the backslash and the controls below the blank.
-/

namespace ApiSurface.Json

/-- Doubles in a document: a tie goes to the even digit, positions from `1e-5` to below `1e16` are
written out, and an exponent shows its sign. -/
def floatLayout : Decimal.Layout where
  tie := .toEven
  leastPlain := -5
  greatestPlain := 15
  plusSign := true

def hexLetter (n : Nat) : Char := (Nat.digitChar (n % 16))

def escapedChar (c : Char) : String :=
  match c with
  | '"' => "\\\""
  | '\\' => "\\\\"
  | '\n' => "\\n"
  | '\r' => "\\r"
  | '\t' => "\\t"
  | _ =>
    if c.toNat = 8 then "\\b"
    else if c.toNat = 12 then "\\f"
    else if c.toNat < 0x20 then
      "\\u00" ++ String.ofList [hexLetter (c.toNat / 16), hexLetter c.toNat]
    else c.toString

def escaped (s : String) : String :=
  "\"" ++ String.join (s.toList.map escapedChar) ++ "\""

def writeInt (n : Int) : String :=
  if n < 0 then "-" ++ String.ofList (Nat.toDigits 10 n.natAbs)
  else String.ofList (Nat.toDigits 10 n.natAbs)

/-- A value that is neither array nor object. -/
def writeScalar : Json → String
  | .bool true => "true"
  | .bool false => "false"
  | .int n => writeInt n
  | .float x => if x.isFinite then Decimal.write floatLayout x else "null"
  | .string s => escaped s
  | _ => "null"

/-! ## 1. On one line -/

mutual
def compact : Json → String
  | .array items => "[" ++ compactItems items ++ "]"
  | .object members => "\x7b" ++ compactMembers members ++ "\x7d"
  | v => writeScalar v

def compactItems : List Json → String
  | [] => ""
  | [v] => v.compact
  | v :: more => v.compact ++ "," ++ compactItems more

def compactMembers : List (String × Json) → String
  | [] => ""
  | [m] => compactMember m
  | m :: more => compactMember m ++ "," ++ compactMembers more

def compactMember : String × Json → String
  | (key, v) => escaped key ++ ":" ++ v.compact
end

/-! ## 2. On indented lines -/

/-- A line break and two blanks for each level. -/
def newline (level : Nat) : String := "\n" ++ String.ofList (List.replicate (2 * level) ' ')

mutual
/-- The value inside `level` arrays and objects. -/
def indented (level : Nat) : Json → String
  | .array [] => "[]"
  | .array items => "[" ++ indentedItems (level + 1) items ++ newline level ++ "]"
  | .object [] => "\x7b\x7d"
  | .object members => "\x7b" ++ indentedMembers (level + 1) members ++ newline level ++ "\x7d"
  | v => writeScalar v

def indentedItems (level : Nat) : List Json → String
  | [] => ""
  | [v] => newline level ++ v.indented level
  | v :: more => newline level ++ v.indented level ++ "," ++ indentedItems level more

def indentedMembers (level : Nat) : List (String × Json) → String
  | [] => ""
  | [m] => newline level ++ indentedMember level m
  | m :: more => newline level ++ indentedMember level m ++ "," ++ indentedMembers level more

def indentedMember (level : Nat) : String × Json → String
  | (key, v) => escaped key ++ ": " ++ v.indented level
end

/-- The value on indented lines, starting at the margin. -/
def pretty (v : Json) : String := v.indented 0

end ApiSurface.Json
