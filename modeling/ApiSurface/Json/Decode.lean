import ApiSurface.Json.Basic
import ApiSurface.Json.Fault
/-!
# Reading records out of JSON values

Small readers, each taking a value to what it should be or to the fault that stands in the way.
Records are objects: a key that the record knows may stand once, any other key is ignored.  A
record may also be an array of its leading values in order; a tagged one then begins with its tag.
-/

namespace ApiSurface.Json

/-- What reading a value gives. -/
abbrev Decoded (α : Type) := Except Fault α

/-! ## 1. Single values -/

def asBool : Json → Decoded Bool
  | .bool b => .ok b
  | _ => .error (.expected "a boolean")

def asString : Json → Decoded String
  | .string s => .ok s
  | _ => .error (.expected "a string")

def asArray : Json → Decoded (List Json)
  | .array items => .ok items
  | _ => .error (.expected "an array")

def asObject : Json → Decoded Members
  | .object members => .ok members
  | _ => .error (.expected "an object")

/-- An unsigned integer of thirty-two bits. -/
def asWord : Json → Decoded Nat
  | .int n => if 0 ≤ n && n < 0x100000000 then .ok n.toNat else .error (.expected "a small integer")
  | _ => .error (.expected "a small integer")

/-- Any number, as a double. -/
def asBinary64 : Json → Decoded Binary64
  | .int n => .ok (Binary64.ofInt n)
  | .float x => .ok x
  | _ => .error (.expected "a number")

/-- A list whose items are all read by `f`. -/
def asList (f : Json → Decoded α) (v : Json) : Decoded (List α) := do
  (← asArray v).mapM f

def asStrings (v : Json) : Decoded (List String) := asList asString v

/-- Null, or what `f` reads. -/
def asOption (f : Json → Decoded α) : Json → Decoded (Option α)
  | .null => .ok none
  | v => (f v).map some

/-- The value if every part of it can be held. -/
def readable (v : Json) : Decoded Json :=
  if v.isReadable then .ok v else .error .unreadable

/-- When a value is read: at once, or after it was held while the tag of a value around it was
sought. -/
inductive Reading
  | direct | held

/-- One of several cases by its name, which may also be the key of a lone null or, in a held value,
of a lone empty object. -/
def asCase : Reading → Json → Decoded String
  | _, .string name => .ok name
  | _, .object [(name, .null)] => .ok name
  | .held, .object [(name, .object [])] => .ok name
  | _, _ => .error (.expected "a name")

/-! ## 2. Members of a record -/

/-- The members of a record with these keys. -/
def asRecord (keys : List String) : Json → Decoded Members
  | .object members => .ok members
  | .array items =>
    if items.length ≤ keys.length then .ok (keys.zip items) else .error (.expected "fewer values")
  | _ => .error (.expected "an object")

/-- The value under a key, which may stand at most once. -/
def member? (members : Members) (key : String) : Decoded (Option Json) :=
  match members.filter fun m => m.1 == key with
  | [] => .ok none
  | [m] => .ok (some m.2)
  | _ => .error (.repeated key)

/-- A member that has to be there. -/
def required (members : Members) (key : String) (f : Json → Decoded α) : Decoded α := do
  match ← member? members key with
  | some v => f v
  | none => .error (.missing key)

/-- The tag of a value, which is a string under `key`, and the record that it tells the kind of. -/
def asTagged (key : String) : Json → Decoded (String × Json)
  | .object members => do return (← required members key asString, .object members)
  | .array (tag :: items) => do return (← tag.asString, .array items)
  | _ => .error (.expected "an object")

/-- A member that may be absent or null. -/
def optional (members : Members) (key : String) (f : Json → Decoded α) : Decoded (Option α) := do
  match ← member? members key with
  | some v => asOption f v
  | none => .ok none

/-- A member that takes a default when absent. -/
def withDefault (members : Members) (key : String) (default : α) (f : Json → Decoded α) :
    Decoded α := do
  match ← member? members key with
  | some v => f v
  | none => .ok default

def flag (members : Members) (key : String) : Decoded Bool := withDefault members key false asBool

end ApiSurface.Json
