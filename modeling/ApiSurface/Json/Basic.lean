import ApiSurface.Number.Binary64
/-!
# JSON values

A value keeps what its text said: integers stay apart from doubles, and an object keeps its members
in written order, repeated keys included.  One constructor, `unreadable`, stands for a value whose
form is right but that nothing here can hold: a number past the doubles, a text with half a
surrogate pair, or brackets nested deeper than `nestingLimit`.  Such a value does no harm where no
reader looks at it.
-/

namespace ApiSurface

inductive Json
  | null
  | bool (b : Bool)
  | int (n : Int)
  | float (x : Binary64)
  | string (s : String)
  | array (items : List Json)
  | object (members : List (String × Json))
  | unreadable

namespace Json

/-- The members of an object. -/
abbrev Members := List (String × Json)

/-- A double; the values that are not finite have no numeral and are written as null. -/
def ofBinary64 (x : Binary64) : Json := if x.isFinite then .float x else .null

def strings (items : List String) : Json := .array (items.map .string)

def ofOption (f : α → Json) : Option α → Json
  | none => .null
  | some a => f a

/-- A member that is left out when there is nothing to say. -/
def omitNone (key : String) (f : α → Json) : Option α → Members
  | none => []
  | some a => [(key, f a)]

mutual
/-- How deep arrays and objects are nested. -/
def depth : Json → Nat
  | .array items => depthItems items + 1
  | .object members => depthMembers members + 1
  | _ => 0

def depthItems : List Json → Nat
  | [] => 0
  | v :: more => Nat.max v.depth (depthItems more)

def depthMembers : List (String × Json) → Nat
  | [] => 0
  | m :: more => Nat.max (depthMember m) (depthMembers more)

def depthMember : String × Json → Nat
  | (_, v) => v.depth
end

mutual
/-- Whether no part of the value is unreadable. -/
def isReadable : Json → Bool
  | .array items => readableItems items
  | .object members => readableMembers members
  | .unreadable => false
  | _ => true

def readableItems : List Json → Bool
  | [] => true
  | v :: more => v.isReadable && readableItems more

def readableMembers : List (String × Json) → Bool
  | [] => true
  | m :: more => readableMember m && readableMembers more

def readableMember : String × Json → Bool
  | (_, v) => v.isReadable
end

mutual
/-- The value with at most one member under each key of an object, the last one written. -/
def lastWins : Json → Json
  | .array items => .array (lastWinsItems items)
  | .object members => .object (lastWinsMembers members)
  | v => v

def lastWinsItems : List Json → List Json
  | [] => []
  | v :: more => v.lastWins :: lastWinsItems more

def lastWinsMembers : List (String × Json) → List (String × Json)
  | [] => []
  | m :: more =>
    let rest := lastWinsMembers more
    let first := lastWinsMember m
    if rest.any (fun r => r.1 == first.1) then rest else first :: rest

def lastWinsMember : String × Json → String × Json
  | (key, v) => (key, v.lastWins)
end

end Json

end ApiSurface
