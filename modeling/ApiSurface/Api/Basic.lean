import ApiSurface.Entity.Basic
import ApiSurface.Linearization
/-!
# The API model

Eight tables of rows, each in ascending order of ids.  Adding a row whose id is taken changes
nothing, so of several rows with one id the first stays.  Being lists in ascending order, tables
with the same rows are equal.
-/

namespace ApiSurface

/-! ## 1. Tables -/

class HasId (ρ : Type) where
  id : ρ → String

instance : HasId ModuleRow := ⟨ModuleRow.id⟩
instance : HasId ClassRow := ⟨ClassRow.id⟩
instance : HasId FunctionRow := ⟨FunctionRow.id⟩
instance : HasId ParameterRow := ⟨ParameterRow.id⟩
instance : HasId AttributeRow := ⟨AttributeRow.id⟩
instance : HasId ResultRow := ⟨ResultRow.id⟩
instance : HasId EnumRow := ⟨EnumRow.id⟩
instance : HasId EnumInstanceRow := ⟨EnumInstanceRow.id⟩

/-- The key of a row in its table. -/
def rowKey {ρ : Type} [HasId ρ] (row : ρ) : Key := textKey (HasId.id row)

/-- Rows in ascending order of their ids. -/
abbrev Table (ρ : Type) [HasId ρ] := Ascending (rowKey (ρ := ρ))

namespace Table

variable {ρ : Type} [HasId ρ]

def get? (t : Table ρ) (id : String) : Option ρ := t.toList.find? fun row => HasId.id row == id

def contains (t : Table ρ) (id : String) : Bool := t.toList.any fun row => HasId.id row == id

end Table

/-! ## 2. The model -/

structure Api where
  distribution : String := ""
  package : String := ""
  version : String := ""
  modules : Table ModuleRow := .empty
  classes : Table ClassRow := .empty
  functions : Table FunctionRow := .empty
  parameters : Table ParameterRow := .empty
  attributes : Table AttributeRow := .empty
  results : Table ResultRow := .empty
  enums : Table EnumRow := .empty
  enumInstances : Table EnumInstanceRow := .empty
  deriving DecidableEq

namespace Api

def addModule (a : Api) (r : ModuleRow) : Api := { a with modules := a.modules.insert r }
def addClass (a : Api) (r : ClassRow) : Api := { a with classes := a.classes.insert r }
def addFunction (a : Api) (r : FunctionRow) : Api := { a with functions := a.functions.insert r }
def addParameter (a : Api) (r : ParameterRow) : Api :=
  { a with parameters := a.parameters.insert r }
def addAttribute (a : Api) (r : AttributeRow) : Api :=
  { a with attributes := a.attributes.insert r }
def addResult (a : Api) (r : ResultRow) : Api := { a with results := a.results.insert r }
def addEnum (a : Api) (r : EnumRow) : Api := { a with enums := a.enums.insert r }
def addEnumInstance (a : Api) (r : EnumInstanceRow) : Api :=
  { a with enumInstances := a.enumInstances.insert r }

/-- Adds a row to the table of its kind. -/
def add (a : Api) : Entity → Api
  | .module r => a.addModule r
  | .class r => a.addClass r
  | .function r => a.addFunction r
  | .parameter r => a.addParameter r
  | .attribute r => a.addAttribute r
  | .result r => a.addResult r
  | .enum r => a.addEnum r
  | .enumInstance r => a.addEnumInstance r

/-- Whether the table of an entity's kind has a row with its id. -/
def has (a : Api) : Entity → Bool
  | .module r => a.modules.contains r.id
  | .class r => a.classes.contains r.id
  | .function r => a.functions.contains r.id
  | .parameter r => a.parameters.contains r.id
  | .attribute r => a.attributes.contains r.id
  | .result r => a.results.contains r.id
  | .enum r => a.enums.contains r.id
  | .enumInstance r => a.enumInstances.contains r.id

/-- The rows of both; where ids meet, those of the first. -/
def merge (a b : Api) : Api :=
  { a with
    modules := a.modules.union b.modules
    classes := a.classes.union b.classes
    functions := a.functions.union b.functions
    parameters := a.parameters.union b.parameters
    attributes := a.attributes.union b.attributes
    results := a.results.union b.results
    enums := a.enums.union b.enums
    enumInstances := a.enumInstances.union b.enumInstances }

/-- How many rows there are in all tables. -/
def size (a : Api) : Nat :=
  a.modules.size + a.classes.size + a.functions.size + a.parameters.size + a.attributes.size
    + a.results.size + a.enums.size + a.enumInstances.size

/-! ## 3. Lookup -/

def classByQualifiedName? (a : Api) (name : String) : Option ClassRow :=
  a.classes.toList.find? fun c => c.qualifiedName == name

/-- The parameters of a function that have a row, in order of declaration. -/
def parametersOf (a : Api) (f : FunctionRow) : List ParameterRow :=
  f.parameters.filterMap a.parameters.get?

def resultsOf (a : Api) (f : FunctionRow) : List ResultRow := f.results.filterMap a.results.get?

/-- The hierarchy of the classes of the model, by qualified name. -/
def hierarchy (a : Api) : Hierarchy :=
  a.classes.toList.map fun c => (c.qualifiedName, c.superclasses)

/-- The linearization of a class, in ids. -/
def linearize (a : Api) (classId : String) : Except LinearizationError (List String) :=
  match a.classes.get? classId with
  | none => .error (.classNotFound classId)
  | some c => do
    let names ← a.hierarchy.linearize c.qualifiedName
    return names.filterMap fun name => (a.classByQualifiedName? name).map ClassRow.id

/-- The functions that a class lists itself, its constructor last. -/
def ownFunctions (a : Api) (c : ClassRow) : List FunctionRow :=
  (c.methods ++ c.constructor?.toList).filterMap a.functions.get?

/-- The nearest definition of a method along the linearization of a class. -/
def resolveMethod? (a : Api) (classId name : String) :
    Except LinearizationError (Option FunctionRow) := do
  let ids ← a.linearize classId
  return (ids.filterMap a.classes.get?).findSome? fun c =>
    (a.ownFunctions c).find? fun f => f.name == name

/-! ## 4. References -/

/-- The ids that have no row in a table. -/
def missing {ρ : Type} [HasId ρ] (t : Table ρ) (ids : List String) : List String :=
  ids.filter fun id => !t.contains id

/-- The ids in child lists that no row answers to, in ascending order. -/
def danglingReferences (a : Api) : List String :=
  let ofModule (m : ModuleRow) := missing a.classes m.classes ++ missing a.functions m.functions
    ++ missing a.enums m.enums
  let ofClass (c : ClassRow) := missing a.functions c.methods
    ++ missing a.functions c.constructor?.toList ++ missing a.classes c.classes
    ++ missing a.attributes c.attributes
  let ofFunction (f : FunctionRow) := missing a.parameters f.parameters
    ++ missing a.results f.results
  let ofEnum (e : EnumRow) := missing a.enumInstances e.instances
  (Ascending.ofList (a.modules.toList.flatMap ofModule ++ a.classes.toList.flatMap ofClass
    ++ a.functions.toList.flatMap ofFunction ++ a.enums.toList.flatMap ofEnum) : NameSet).toList

end Api

end ApiSurface
