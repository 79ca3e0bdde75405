import ApiSurface.ApiType.Codec
/-!
# Annotations

The types that a type checker attached to a program: mostly resolved, with full names, and in a few
places still as they were written (`unbound`).
-/

namespace ApiSurface

/-- Why a checker took a type to be anything. -/
inductive AnyReason
  | explicit
  | unannotated
  | fromAnotherAny
  | fromUnimportedType
  | fromOmittedGenerics
  | fromError
  | special
  | implementationArtifact
  deriving DecidableEq

inductive Annotation
  | any (reason : AnyReason) (missingImport : Option String)
  | none
  /-- A class with its arguments. -/
  | inst (fullname : String) (args : List Annotation)
  | union (items : List Annotation)
  | tuple (items : List Annotation)
  | callable (parameters : List Annotation) (result : Annotation)
  | literal (value : Literal)
  | typeVar (name fullname : String) (bound : Option Annotation)
  /-- A name as it was written, before resolution. -/
  | unbound (name : String) (args : List Annotation)
  /-- The type of a class object. -/
  | typeOf (item : Annotation)
  | uninhabited
  | other (description : String)

/-- Whether an `any` for this reason says nothing about the program. -/
def AnyReason.isUninformative : AnyReason → Bool
  | .unannotated | .fromAnotherAny | .fromError | .implementationArtifact => true
  | _ => false

def Annotation.isUninformative : Annotation → Bool
  | .any reason _ => reason.isUninformative
  | _ => false

/-! ## JSON -/

open Json (required optional withDefault asString asList Decoded)

def AnyReason.name : AnyReason → String
  | .explicit => "explicit"
  | .unannotated => "unannotated"
  | .fromAnotherAny => "from_another_any"
  | .fromUnimportedType => "from_unimported_type"
  | .fromOmittedGenerics => "from_omitted_generics"
  | .fromError => "from_error"
  | .special => "special"
  | .implementationArtifact => "implementation_artifact"

def AnyReason.ofJson (v : Json) : Decoded AnyReason := do
  match ← v.asCase .held with
  | "explicit" => return .explicit
  | "unannotated" => return .unannotated
  | "from_another_any" => return .fromAnotherAny
  | "from_unimported_type" => return .fromUnimportedType
  | "from_omitted_generics" => return .fromOmittedGenerics
  | "from_error" => return .fromError
  | "special" => return .special
  | "implementation_artifact" => return .implementationArtifact
  | tag => throw (.unknownTag tag)

namespace Annotation

def tagged (kind : String) (members : Json.Members) : Json :=
  .object (("kind", .string kind) :: members)

mutual
def toJson : Annotation → Json
  | .any reason missing =>
    tagged "any"
      [("type_of_any", .string reason.name), ("missing_import_name", .ofOption .string missing)]
  | .none => tagged "none" []
  | .inst fullname args =>
    tagged "instance" [("fullname", .string fullname), ("args", .array (listToJson args))]
  | .union items => tagged "union" [("items", .array (listToJson items))]
  | .tuple items => tagged "tuple" [("items", .array (listToJson items))]
  | .callable parameters result =>
    tagged "callable"
      [("arg_types", .array (listToJson parameters)), ("ret_type", result.toJson)]
  | .literal value => tagged "literal" [("value", value.toJson)]
  | .typeVar name fullname bound =>
    tagged "type_var" [("name", .string name), ("fullname", .string fullname),
      ("upper_bound", boundToJson bound)]
  | .unbound name args =>
    tagged "unbound" [("name", .string name), ("args", .array (listToJson args))]
  | .typeOf item => tagged "type_type" [("item", item.toJson)]
  | .uninhabited => tagged "uninhabited" []
  | .other description => tagged "other" [("description", .string description)]

def listToJson : List Annotation → List Json
  | [] => []
  | a :: more => a.toJson :: listToJson more

def boundToJson : Option Annotation → Json
  | Option.none => .null
  | some a => a.toJson
end

/-- The fields of each kind of annotation, in order. -/
def fieldsOf : (kind : String) → List String
  | "any" => ["type_of_any", "missing_import_name"]
  | "instance" => ["fullname", "args"]
  | "union" | "tuple" => ["items"]
  | "callable" => ["arg_types", "ret_type"]
  | "literal" => ["value"]
  | "type_var" => ["name", "fullname", "upper_bound"]
  | "unbound" => ["name", "args"]
  | "type_type" => ["item"]
  | "other" => ["description"]
  | _ => []

/-- Reads an annotation of at most the given depth. -/
def ofJsonWithin : (depth : Nat) → Json → Decoded Annotation
  | 0, _ => .error (.expected "an annotation")
  | depth + 1, v => do
    let (kind, v) ← v.asTagged "kind"
    let m ← v.asRecord (fieldsOf kind)
    let list := asList (ofJsonWithin depth)
    match kind with
    | "any" =>
      return .any (← required m "type_of_any" AnyReason.ofJson)
        (← optional m "missing_import_name" asString)
    | "none" => return .none
    | "instance" =>
      return .inst (← required m "fullname" asString) (← withDefault m "args" [] list)
    | "union" => return .union (← required m "items" list)
    | "tuple" => return .tuple (← required m "items" list)
    | "callable" =>
      return .callable (← withDefault m "arg_types" [] list)
        (← required m "ret_type" (ofJsonWithin depth))
    | "literal" => return .literal (← required m "value" Literal.ofJson)
    | "type_var" =>
      return .typeVar (← required m "name" asString) (← withDefault m "fullname" "" asString)
        (← optional m "upper_bound" (ofJsonWithin depth))
    | "unbound" =>
      return .unbound (← required m "name" asString) (← withDefault m "args" [] list)
    | "type_type" => return .typeOf (← required m "item" (ofJsonWithin depth))
    | "uninhabited" => return .uninhabited
    | "other" => return .other (← withDefault m "description" "" asString)
    | tag => throw (.unknownTag tag)

def ofJson (v : Json) : Decoded Annotation := do
  ofJsonWithin v.depth (← v.readable)

end Annotation

end ApiSurface
