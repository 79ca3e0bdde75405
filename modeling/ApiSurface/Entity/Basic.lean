import ApiSurface.ApiType.Basic
/-!
# Rows of the API model

One structure for each kind of entity.  Rows refer to each other by id only.
-/

namespace ApiSurface

/-! ## 1. Modules -/

structure QualifiedImport where
  qualifiedName : String
  asName : Option String
  deriving DecidableEq

structure WildcardImport where
  moduleName : String
  deriving DecidableEq

structure ModuleRow where
  id : String
  name : String
  docstring : String
  qualifiedImports : List QualifiedImport
  wildcardImports : List WildcardImport
  classes : List String
  functions : List String
  enums : List String
  deriving DecidableEq

/-! ## 2. Classes -/

inductive Variance
  | invariant
  | covariant
  | contravariant
  deriving DecidableEq

structure TypeParameter where
  name : String
  variance : Variance
  bound : Option ApiType
  deriving DecidableEq

/-- What a docstring says of a class or function: the text before its sections, and all of it. -/
structure Description where
  description : String
  fullDocstring : String
  deriving DecidableEq

structure ClassRow where
  id : String
  name : String
  qualifiedName : String
  superclasses : List String
  isPublic : Bool
  isException : Bool
  docstring : Description
  constructor? : Option String
  constructorFullDocstring : String
  attributes : List String
  methods : List String
  classes : List String
  typeParameters : List TypeParameter
  reexportedBy : List String
  deriving DecidableEq

/-! ## 3. Functions, parameters, results -/

structure FunctionRow where
  id : String
  name : String
  qualifiedName : String
  isPublic : Bool
  isStatic : Bool
  isClassMethod : Bool
  isProperty : Bool
  docstring : Description
  parameters : List String
  results : List String
  typeVarTypes : TypeSet
  reexportedBy : List String
  deriving DecidableEq

/-- How a parameter gets its argument. -/
inductive ParameterAssignment
  | implicit
  | positionOnly
  | positionOrName
  | positionalVararg
  | nameOnly
  | namedVararg
  deriving DecidableEq

structure ParameterDescription where
  type : Option ApiType := none
  defaultValue : String := ""
  description : String := ""
  deriving DecidableEq

structure ParameterRow where
  id : String
  name : String
  isOptional : Bool
  defaultValue : Option Literal
  assignedBy : ParameterAssignment
  docstring : ParameterDescription
  type : Option ApiType
  deriving DecidableEq

structure ResultDescription where
  type : Option ApiType
  name : String
  description : String
  deriving DecidableEq

structure ResultRow where
  id : String
  name : String
  type : ApiType
  docstring : Option ResultDescription
  deriving DecidableEq

/-! ## 4. Attributes and enums -/

structure AttributeDescription where
  type : Option ApiType := none
  description : String := ""
  deriving DecidableEq

structure AttributeRow where
  id : String
  name : String
  isPublic : Bool
  isStatic : Bool
  type : Option ApiType
  docstring : AttributeDescription
  deriving DecidableEq

structure EnumRow where
  id : String
  name : String
  qualifiedName : String
  isPublic : Bool
  docstring : Description
  instances : List String
  deriving DecidableEq

structure EnumInstanceRow where
  id : String
  name : String
  deriving DecidableEq

/-! ## 5. Any row -/

/-- A row of any kind. -/
inductive Entity
  | module (row : ModuleRow)
  | class (row : ClassRow)
  | function (row : FunctionRow)
  | parameter (row : ParameterRow)
  | attribute (row : AttributeRow)
  | result (row : ResultRow)
  | enum (row : EnumRow)
  | enumInstance (row : EnumInstanceRow)

end ApiSurface
