import ApiSurface.ApiType.Display
/-!
# Types in JSON

A type is an object whose `kind` names the constructor.  Reading recurses into the members of the
object, so it runs on the depth of the value as its measure; every value inside another has a
smaller depth.  Members are taken as they are written: only the values of an `enum` are a set.
-/

namespace ApiSurface

def Boundary.members (b : Boundary) : Json.Members :=
  [("base", .string b.base.name),
   ("min", .ofOption Json.ofBinary64 b.min),
   ("min_inclusive", .bool b.minInclusive),
   ("max", .ofOption Json.ofBinary64 b.max),
   ("max_inclusive", .bool b.maxInclusive)]

def BoundaryBase.ofJson (v : Json) : Json.Decoded BoundaryBase := do
  match ← v.asCase .held with
  | "int" => return .int
  | "float" => return .float
  | tag => throw (.unknownTag tag)

def Boundary.ofMembers (m : Json.Members) : Json.Decoded Boundary := do
  return {
    base := ← Json.required m "base" BoundaryBase.ofJson
    min := ← Json.optional m "min" Json.asBinary64
    minInclusive := ← Json.required m "min_inclusive" Json.asBool
    max := ← Json.optional m "max" Json.asBinary64
    maxInclusive := ← Json.required m "max_inclusive" Json.asBool }

namespace ApiType

def tagged (kind : String) (members : Json.Members) : Json :=
  .object (("kind", .string kind) :: members)

mutual
def toJson : ApiType → Json
  | .unknown => tagged "unknown" []
  | .named name qname => tagged "named" [("name", .string name), ("qname", .string qname)]
  | .namedSequence name qname types =>
    tagged "named_sequence"
      [("name", .string name), ("qname", .string qname), ("types", .array (listToJson types))]
  | .enum values => tagged "enum" [("values", .strings values.toList)]
  | .boundary range => tagged "boundary" range.members
  | .list types => tagged "list" [("types", .array (listToJson types))]
  | .set types => tagged "set" [("types", .array (listToJson types))]
  | .tuple types => tagged "tuple" [("types", .array (listToJson types))]
  | .union types => tagged "union" [("types", .array (listToJson types))]
  | .dict k v => tagged "dict" [("key", k.toJson), ("value", v.toJson)]
  | .callable parameters result =>
    tagged "callable"
      [("parameter_types", .array (listToJson parameters)), ("return_type", result.toJson)]
  | .literal values => tagged "literal" [("literals", .array (values.map Literal.toJson))]
  | .final inner => tagged "final" [("inner", inner.toJson)]
  | .typeVar name bound => tagged "type_var" (("name", .string name) :: boundMembers bound)

def listToJson : List ApiType → List Json
  | [] => []
  | t :: more => t.toJson :: listToJson more

def boundMembers : Option ApiType → Json.Members
  | Option.none => []
  | some t => [("upper_bound", t.toJson)]
end

/-- The fields of each kind of type, in order. -/
def fieldsOf : (kind : String) → List String
  | "named" => ["name", "qname"]
  | "named_sequence" => ["name", "qname", "types"]
  | "enum" => ["values"]
  | "boundary" => ["base", "min", "min_inclusive", "max", "max_inclusive"]
  | "list" | "set" | "tuple" | "union" => ["types"]
  | "dict" => ["key", "value"]
  | "callable" => ["parameter_types", "return_type"]
  | "literal" => ["literals"]
  | "final" => ["inner"]
  | "type_var" => ["name", "upper_bound"]
  | _ => []

/-- Reads a type of a kind from the members of its record, with `read` for the types inside it. -/
def ofMembers (read : Json → Json.Decoded ApiType) (kind : String) (m : Json.Members) :
    Json.Decoded ApiType := do
  let types (key : String) := Json.required m key (Json.asList read)
  match kind with
  | "unknown" => return .unknown
  | "named" =>
    return .named (← Json.required m "name" Json.asString)
      (← Json.required m "qname" Json.asString)
  | "named_sequence" =>
    return .namedSequence (← Json.required m "name" Json.asString)
      (← Json.required m "qname" Json.asString) (← types "types")
  | "enum" => return enumOf (← Json.required m "values" Json.asStrings)
  | "boundary" => return .boundary (← Boundary.ofMembers m)
  | "list" => return .list (← types "types")
  | "set" => return .set (← types "types")
  | "tuple" => return .tuple (← types "types")
  | "union" => return .union (← types "types")
  | "dict" => return .dict (← Json.required m "key" read) (← Json.required m "value" read)
  | "callable" =>
    return .callable (← types "parameter_types") (← Json.required m "return_type" read)
  | "literal" => return .literal (← Json.required m "literals" (Json.asList Literal.ofJson))
  | "final" => return .final (← Json.required m "inner" read)
  | "type_var" =>
    return .typeVar (← Json.required m "name" Json.asString) (← Json.optional m "upper_bound" read)
  | tag => throw (.unknownTag tag)

/-- Reads a type of at most the given depth. -/
def ofJsonWithin : (depth : Nat) → Json → Json.Decoded ApiType
  | 0, _ => .error (.expected "a type")
  | depth + 1, v => do
    let (kind, v) ← v.asTagged "kind"
    let m ← v.asRecord (fieldsOf kind)
    ofMembers (ofJsonWithin depth) kind m

def ofJson (v : Json) : Json.Decoded ApiType := do
  ofJsonWithin v.depth (← v.readable)

end ApiType

namespace TypeSet

def toJson (s : TypeSet) : Json := .array (s.toList.map ApiType.toJson)

def ofJson (v : Json) : Json.Decoded TypeSet := do
  return Ascending.ofList (← Json.asList ApiType.ofJson v)

end TypeSet

end ApiSurface
