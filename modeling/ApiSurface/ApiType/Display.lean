import ApiSurface.ApiType.Basic
/-!
# Displayed types

The short text of a type, as it would be written in an annotation or a docstring.
-/

namespace ApiSurface

def BoundaryBase.name : BoundaryBase → String
  | .int => "int"
  | .float => "float"

/-- The base and an interval: square brackets include their end, round ones do not. -/
def Boundary.display (b : Boundary) : String :=
  let low := b.min.elim "-inf" Literal.displayFloat
  let high := b.max.elim "inf" Literal.displayFloat
  b.base.name ++ " in " ++ (if b.minInclusive then "[" else "(") ++ low ++ ", " ++ high
    ++ (if b.maxInclusive then "]" else ")")

namespace ApiType

mutual
def display : ApiType → String
  | .unknown => "Unknown"
  | .named name _ => name
  | .namedSequence name _ types => name ++ "[" ++ displayList ", " types ++ "]"
  | .enum values => "\x7b" ++ ", ".intercalate (values.toList.map Text.quoted) ++ "\x7d"
  | .boundary range => range.display
  | .list types => "list[" ++ displayList " | " types ++ "]"
  | .set types => "set[" ++ displayList " | " types ++ "]"
  | .tuple types => "tuple[" ++ displayList ", " types ++ "]"
  | .union types => displayList " | " types
  | .dict k v => "dict[" ++ k.display ++ ", " ++ v.display ++ "]"
  | .callable parameters result =>
    "Callable[[" ++ displayList ", " parameters ++ "], " ++ result.display ++ "]"
  | .literal values => "Literal[" ++ ", ".intercalate (values.map Literal.display) ++ "]"
  | .final inner => "Final[" ++ inner.display ++ "]"
  | .typeVar name _ => name

def displayList (sep : String) : List ApiType → String
  | [] => ""
  | [t] => t.display
  | t :: more => t.display ++ sep ++ displayList sep more
end

end ApiType

end ApiSurface
