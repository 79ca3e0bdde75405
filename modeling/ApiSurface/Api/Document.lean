import ApiSurface.Api.Basic
import ApiSurface.Entity.Codec
import ApiSurface.Json.Parser
/-!
# Documents

The written form of a model: one list of rows for each kind of entity.  Reading a document back
checks the lists one after the other for repeated ids.
-/

namespace ApiSurface

structure Document where
  schemaVersion : String
  distribution : String
  package : String
  version : String
  modules : List ModuleRow
  classes : List ClassRow
  functions : List FunctionRow
  results : List ResultRow
  enums : List EnumRow
  enumInstances : List EnumInstanceRow
  attributes : List AttributeRow
  parameters : List ParameterRow
  deriving DecidableEq

def schemaVersion : String := "1"

/-! ## 1. Models and documents -/

def Api.toDocument (a : Api) : Document where
  schemaVersion := ApiSurface.schemaVersion
  distribution := a.distribution
  package := a.package
  version := a.version
  modules := a.modules.toList
  classes := a.classes.toList
  functions := a.functions.toList
  results := a.results.toList
  enums := a.enums.toList
  enumInstances := a.enumInstances.toList
  attributes := a.attributes.toList
  parameters := a.parameters.toList

/-- Adds rows to a table, refusing the first whose id is taken. -/
def Table.extend {ρ : Type} [HasId ρ] (name : String) : Table ρ → List ρ → Except Error (Table ρ)
  | t, [] => .ok t
  | t, row :: rows =>
    if t.contains (HasId.id row) then
      .error (.malformedInput name ("duplicate id in document: " ++ HasId.id row))
    else Table.extend name (t.insert row) rows

/-- The table of a document's rows. -/
def Table.ofRows {ρ : Type} [HasId ρ] (name : String) (rows : List ρ) : Except Error (Table ρ) :=
  Table.extend name .empty rows

def Api.ofDocument (d : Document) : Except Error Api := do
  return {
    distribution := d.distribution
    package := d.package
    version := d.version
    modules := ← Table.ofRows "modules" d.modules
    classes := ← Table.ofRows "classes" d.classes
    functions := ← Table.ofRows "functions" d.functions
    parameters := ← Table.ofRows "parameters" d.parameters
    attributes := ← Table.ofRows "attributes" d.attributes
    results := ← Table.ofRows "results" d.results
    enums := ← Table.ofRows "enums" d.enums
    enumInstances := ← Table.ofRows "enum_instances" d.enumInstances }

/-! ## 2. Documents as text -/

namespace Document

open Json (required asString asList)

def toJson (d : Document) : Json :=
  .object [("schema_version", .string d.schemaVersion), ("distribution", .string d.distribution),
    ("package", .string d.package), ("version", .string d.version),
    ("modules", .array (d.modules.map ModuleRow.toJson)),
    ("classes", .array (d.classes.map ClassRow.toJson)),
    ("functions", .array (d.functions.map FunctionRow.toJson)),
    ("results", .array (d.results.map ResultRow.toJson)),
    ("enums", .array (d.enums.map EnumRow.toJson)),
    ("enum_instances", .array (d.enumInstances.map EnumInstanceRow.toJson)),
    ("attributes", .array (d.attributes.map AttributeRow.toJson)),
    ("parameters", .array (d.parameters.map ParameterRow.toJson))]

def ofJson (v : Json) : Json.Decoded Document := do
  let m ← v.asRecord
    ["schema_version", "distribution", "package", "version", "modules", "classes",
      "functions", "results", "enums", "enum_instances", "attributes", "parameters"]
  return {
    schemaVersion := ← required m "schema_version" asString
    distribution := ← required m "distribution" asString
    package := ← required m "package" asString
    version := ← required m "version" asString
    modules := ← required m "modules" (asList ModuleRow.ofJson)
    classes := ← required m "classes" (asList ClassRow.ofJson)
    functions := ← required m "functions" (asList FunctionRow.ofJson)
    results := ← required m "results" (asList ResultRow.ofJson)
    enums := ← required m "enums" (asList EnumRow.ofJson)
    enumInstances := ← required m "enum_instances" (asList EnumInstanceRow.ofJson)
    attributes := ← required m "attributes" (asList AttributeRow.ofJson)
    parameters := ← required m "parameters" (asList ParameterRow.ofJson) }

/-- The document as indented JSON with a line break at its end. -/
def emit (d : Document) : String := d.toJson.pretty ++ "\n"

def parse (text : String) : Except Error Document :=
  match Json.parse text >>= ofJson with
  | .ok d => .ok d
  | .error fault => .error (.malformedInput "<document>" fault.message)

end Document

end ApiSurface
