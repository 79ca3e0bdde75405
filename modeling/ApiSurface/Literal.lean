import ApiSurface.Json.Decode
import ApiSurface.Json.Printer
import ApiSurface.Order
import ApiSurface.Text.Quoted
/-!
# Literal values

The values that a default or a literal type can hold.  Integers are those of sixty-four bits with
sign; a larger one is no literal value.
-/

namespace ApiSurface

inductive Literal
  | bool (b : Bool)
  | int (n : Int64)
  | float (x : Binary64)
  | str (s : String)
  | none
  deriving DecidableEq

namespace Literal

/-- The key of a double under the total order of doubles. -/
def floatKey (x : Binary64) : Key := [(x.orderKey : Int)]

/-- Booleans, integers, doubles, texts and the empty value, in this order. -/
def key : Literal → Key
  | .bool b => 0 :: flagKey b
  | .int n => [1, n.toInt]
  | .float x => 2 :: floatKey x
  | .str s => 3 :: textKey s
  | .none => [4]

/-- Doubles on display: a tie goes up, positions from `1e-4` to below `1e16` are written out, and
an exponent has no plus sign. -/
def floatLayout : Decimal.Layout where
  tie := .up
  leastPlain := -4
  greatestPlain := 15
  plusSign := false

def displayFloat (x : Binary64) : String := Decimal.write floatLayout x

def display : Literal → String
  | .bool true => "True"
  | .bool false => "False"
  | .int n => Json.writeInt n.toInt
  | .float x => displayFloat x
  | .str s => Text.quoted s
  | .none => "None"

/-! ## JSON -/

def toJson : Literal → Json
  | .bool b => .bool b
  | .int n => .int n.toInt
  | .float x => .ofBinary64 x
  | .str s => .string s
  | .none => .null

/-- Whether an integer fits sixty-four bits with sign. -/
def fitsInt64 (n : Int) : Bool := -0x8000000000000000 ≤ n && n < 0x8000000000000000

/-- An integer that does not fit is read as a double. -/
def ofJson : Json → Json.Decoded Literal
  | .null => .ok .none
  | .bool b => .ok (.bool b)
  | .int n => .ok (if fitsInt64 n then .int (Int64.ofInt n) else .float (Binary64.ofInt n))
  | .float x => .ok (.float x)
  | .string s => .ok (.str s)
  | _ => .error (.expected "a literal value")

end Literal

end ApiSurface
