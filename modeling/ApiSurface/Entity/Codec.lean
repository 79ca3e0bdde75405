import ApiSurface.ApiType.Codec
import ApiSurface.Entity.Basic
/-!
# Rows in JSON

Each row is an object with its fields in the order below.  A field that may be absent is left out
when it is; every other field has to be there.
-/

namespace ApiSurface

open Json (required optional asString asStrings asBool asList asOption Decoded omitNone strings)

/-! ## 1. Parts -/

def QualifiedImport.toJson (i : QualifiedImport) : Json :=
  .object (("qualified_name", .string i.qualifiedName) :: omitNone "alias" .string i.asName)

def QualifiedImport.ofJson (v : Json) : Decoded QualifiedImport := do
  let m ← v.asRecord ["qualified_name", "alias"]
  return {
    qualifiedName := ← required m "qualified_name" asString
    asName := ← optional m "alias" asString }

def WildcardImport.toJson (i : WildcardImport) : Json :=
  .object [("module_name", .string i.moduleName)]

def WildcardImport.ofJson (v : Json) : Decoded WildcardImport := do
  let m ← v.asRecord ["module_name"]
  return { moduleName := ← required m "module_name" asString }

def Variance.name : Variance → String
  | .invariant => "invariant"
  | .covariant => "covariant"
  | .contravariant => "contravariant"

def Variance.ofJson (reading : Json.Reading) (v : Json) : Decoded Variance := do
  match ← v.asCase reading with
  | "invariant" => return .invariant
  | "covariant" => return .covariant
  | "contravariant" => return .contravariant
  | tag => throw (.unknownTag tag)

def TypeParameter.toJson (p : TypeParameter) : Json :=
  .object ([("name", .string p.name), ("variance", .string p.variance.name)]
    ++ omitNone "bound" ApiType.toJson p.bound)

def TypeParameter.ofJson (v : Json) : Decoded TypeParameter := do
  let m ← v.asRecord ["name", "variance", "bound"]
  return {
    name := ← required m "name" asString
    variance := ← required m "variance" (Variance.ofJson .direct)
    bound := ← optional m "bound" ApiType.ofJson }

def Description.toJson (d : Description) : Json :=
  .object [("description", .string d.description), ("full_docstring", .string d.fullDocstring)]

def Description.ofJson (v : Json) : Decoded Description := do
  let m ← v.asRecord ["description", "full_docstring"]
  return {
    description := ← required m "description" asString
    fullDocstring := ← required m "full_docstring" asString }

def ParameterAssignment.name : ParameterAssignment → String
  | .implicit => "IMPLICIT"
  | .positionOnly => "POSITION_ONLY"
  | .positionOrName => "POSITION_OR_NAME"
  | .positionalVararg => "POSITIONAL_VARARG"
  | .nameOnly => "NAME_ONLY"
  | .namedVararg => "NAMED_VARARG"

def ParameterAssignment.ofJson (v : Json) : Decoded ParameterAssignment := do
  match ← v.asCase .direct with
  | "IMPLICIT" => return .implicit
  | "POSITION_ONLY" => return .positionOnly
  | "POSITION_OR_NAME" => return .positionOrName
  | "POSITIONAL_VARARG" => return .positionalVararg
  | "NAME_ONLY" => return .nameOnly
  | "NAMED_VARARG" => return .namedVararg
  | tag => throw (.unknownTag tag)

def ParameterDescription.toJson (d : ParameterDescription) : Json :=
  .object (omitNone "ty" ApiType.toJson d.type
    ++ [("default_value", .string d.defaultValue), ("description", .string d.description)])

def ParameterDescription.ofJson (v : Json) : Decoded ParameterDescription := do
  let m ← v.asRecord ["ty", "default_value", "description"]
  return {
    type := ← optional m "ty" ApiType.ofJson
    defaultValue := ← required m "default_value" asString
    description := ← required m "description" asString }

def ResultDescription.toJson (d : ResultDescription) : Json :=
  .object (omitNone "ty" ApiType.toJson d.type
    ++ [("name", .string d.name), ("description", .string d.description)])

def ResultDescription.ofJson (v : Json) : Decoded ResultDescription := do
  let m ← v.asRecord ["ty", "name", "description"]
  return {
    type := ← optional m "ty" ApiType.ofJson
    name := ← required m "name" asString
    description := ← required m "description" asString }

def AttributeDescription.toJson (d : AttributeDescription) : Json :=
  .object (omitNone "ty" ApiType.toJson d.type ++ [("description", .string d.description)])

def AttributeDescription.ofJson (v : Json) : Decoded AttributeDescription := do
  let m ← v.asRecord ["ty", "description"]
  return {
    type := ← optional m "ty" ApiType.ofJson
    description := ← required m "description" asString }

/-! ## 2. Rows -/

def ModuleRow.toJson (r : ModuleRow) : Json :=
  .object [("id", .string r.id), ("name", .string r.name), ("docstring", .string r.docstring),
    ("qualified_imports", .array (r.qualifiedImports.map QualifiedImport.toJson)),
    ("wildcard_imports", .array (r.wildcardImports.map WildcardImport.toJson)),
    ("classes", strings r.classes), ("functions", strings r.functions),
    ("enums", strings r.enums)]

def ModuleRow.ofJson (v : Json) : Decoded ModuleRow := do
  let m ← v.asRecord
    ["id", "name", "docstring", "qualified_imports", "wildcard_imports", "classes",
      "functions", "enums"]
  return {
    id := ← required m "id" asString
    name := ← required m "name" asString
    docstring := ← required m "docstring" asString
    qualifiedImports := ← required m "qualified_imports" (asList QualifiedImport.ofJson)
    wildcardImports := ← required m "wildcard_imports" (asList WildcardImport.ofJson)
    classes := ← required m "classes" asStrings
    functions := ← required m "functions" asStrings
    enums := ← required m "enums" asStrings }

def ClassRow.toJson (r : ClassRow) : Json :=
  .object ([("id", .string r.id), ("name", .string r.name),
      ("qualified_name", .string r.qualifiedName), ("superclasses", strings r.superclasses),
      ("is_public", .bool r.isPublic), ("is_exception", .bool r.isException),
      ("docstring", r.docstring.toJson)]
    ++ omitNone "constructor" .string r.constructor?
    ++ [("constructor_full_docstring", .string r.constructorFullDocstring),
      ("attributes", strings r.attributes), ("methods", strings r.methods),
      ("classes", strings r.classes),
      ("type_parameters", .array (r.typeParameters.map TypeParameter.toJson)),
      ("reexported_by", strings r.reexportedBy)])

def ClassRow.ofJson (v : Json) : Decoded ClassRow := do
  let m ← v.asRecord
    ["id", "name", "qualified_name", "superclasses", "is_public", "is_exception",
      "docstring", "constructor", "constructor_full_docstring", "attributes", "methods",
      "classes", "type_parameters", "reexported_by"]
  return {
    id := ← required m "id" asString
    name := ← required m "name" asString
    qualifiedName := ← required m "qualified_name" asString
    superclasses := ← required m "superclasses" asStrings
    isPublic := ← required m "is_public" asBool
    isException := ← required m "is_exception" asBool
    docstring := ← required m "docstring" Description.ofJson
    constructor? := ← optional m "constructor" asString
    constructorFullDocstring := ← required m "constructor_full_docstring" asString
    attributes := ← required m "attributes" asStrings
    methods := ← required m "methods" asStrings
    classes := ← required m "classes" asStrings
    typeParameters := ← required m "type_parameters" (asList TypeParameter.ofJson)
    reexportedBy := ← required m "reexported_by" asStrings }

def FunctionRow.toJson (r : FunctionRow) : Json :=
  .object [("id", .string r.id), ("name", .string r.name),
    ("qualified_name", .string r.qualifiedName), ("is_public", .bool r.isPublic),
    ("is_static", .bool r.isStatic), ("is_class_method", .bool r.isClassMethod),
    ("is_property", .bool r.isProperty), ("docstring", r.docstring.toJson),
    ("parameters", strings r.parameters), ("results", strings r.results),
    ("type_var_types", TypeSet.toJson r.typeVarTypes),
    ("reexported_by", strings r.reexportedBy)]

def FunctionRow.ofJson (v : Json) : Decoded FunctionRow := do
  let m ← v.asRecord
    ["id", "name", "qualified_name", "is_public", "is_static", "is_class_method",
      "is_property", "docstring", "parameters", "results", "type_var_types",
      "reexported_by"]
  return {
    id := ← required m "id" asString
    name := ← required m "name" asString
    qualifiedName := ← required m "qualified_name" asString
    isPublic := ← required m "is_public" asBool
    isStatic := ← required m "is_static" asBool
    isClassMethod := ← required m "is_class_method" asBool
    isProperty := ← required m "is_property" asBool
    docstring := ← required m "docstring" Description.ofJson
    parameters := ← required m "parameters" asStrings
    results := ← required m "results" asStrings
    typeVarTypes := ← required m "type_var_types" TypeSet.ofJson
    reexportedBy := ← required m "reexported_by" asStrings }

def ParameterRow.toJson (r : ParameterRow) : Json :=
  .object ([("id", .string r.id), ("name", .string r.name), ("is_optional", .bool r.isOptional)]
    ++ omitNone "default_value" Literal.toJson r.defaultValue
    ++ [("assigned_by", .string r.assignedBy.name), ("docstring", r.docstring.toJson)]
    ++ omitNone "ty" ApiType.toJson r.type)

def ParameterRow.ofJson (v : Json) : Decoded ParameterRow := do
  let m ← v.asRecord
    ["id", "name", "is_optional", "default_value", "assigned_by", "docstring", "ty"]
  return {
    id := ← required m "id" asString
    name := ← required m "name" asString
    isOptional := ← required m "is_optional" asBool
    defaultValue := ← optional m "default_value" Literal.ofJson
    assignedBy := ← required m "assigned_by" ParameterAssignment.ofJson
    docstring := ← required m "docstring" ParameterDescription.ofJson
    type := ← optional m "ty" ApiType.ofJson }

def AttributeRow.toJson (r : AttributeRow) : Json :=
  .object ([("id", .string r.id), ("name", .string r.name), ("is_public", .bool r.isPublic),
      ("is_static", .bool r.isStatic)]
    ++ omitNone "ty" ApiType.toJson r.type ++ [("docstring", r.docstring.toJson)])

def AttributeRow.ofJson (v : Json) : Decoded AttributeRow := do
  let m ← v.asRecord ["id", "name", "is_public", "is_static", "ty", "docstring"]
  return {
    id := ← required m "id" asString
    name := ← required m "name" asString
    isPublic := ← required m "is_public" asBool
    isStatic := ← required m "is_static" asBool
    type := ← optional m "ty" ApiType.ofJson
    docstring := ← required m "docstring" AttributeDescription.ofJson }

def ResultRow.toJson (r : ResultRow) : Json :=
  .object ([("id", .string r.id), ("name", .string r.name), ("ty", r.type.toJson)]
    ++ omitNone "docstring" ResultDescription.toJson r.docstring)

def ResultRow.ofJson (v : Json) : Decoded ResultRow := do
  let m ← v.asRecord ["id", "name", "ty", "docstring"]
  return {
    id := ← required m "id" asString
    name := ← required m "name" asString
    type := ← required m "ty" ApiType.ofJson
    docstring := ← optional m "docstring" ResultDescription.ofJson }

def EnumRow.toJson (r : EnumRow) : Json :=
  .object [("id", .string r.id), ("name", .string r.name),
    ("qualified_name", .string r.qualifiedName), ("is_public", .bool r.isPublic),
    ("docstring", r.docstring.toJson), ("instances", strings r.instances)]

def EnumRow.ofJson (v : Json) : Decoded EnumRow := do
  let m ← v.asRecord ["id", "name", "qualified_name", "is_public", "docstring", "instances"]
  return {
    id := ← required m "id" asString
    name := ← required m "name" asString
    qualifiedName := ← required m "qualified_name" asString
    isPublic := ← required m "is_public" asBool
    docstring := ← required m "docstring" Description.ofJson
    instances := ← required m "instances" asStrings }

def EnumInstanceRow.toJson (r : EnumInstanceRow) : Json :=
  .object [("id", .string r.id), ("name", .string r.name)]

def EnumInstanceRow.ofJson (v : Json) : Decoded EnumInstanceRow := do
  let m ← v.asRecord ["id", "name"]
  return { id := ← required m "id" asString, name := ← required m "name" asString }

/-- The reader of the rows of a table, by the kind of entity that it holds. -/
def Entity.reader? : (kind : String) → Option (Json → Decoded Entity)
  | "module" => some fun v => (ModuleRow.ofJson v).map .module
  | "class" => some fun v => (ClassRow.ofJson v).map .class
  | "function" => some fun v => (FunctionRow.ofJson v).map .function
  | "parameter" => some fun v => (ParameterRow.ofJson v).map .parameter
  | "attribute" => some fun v => (AttributeRow.ofJson v).map .attribute
  | "result" => some fun v => (ResultRow.ofJson v).map .result
  | "enum" => some fun v => (EnumRow.ofJson v).map .enum
  | "enum_instance" => some fun v => (EnumInstanceRow.ofJson v).map .enumInstance
  | _ => none

end ApiSurface
