import ApiSurface.Error
import ApiSurface.Signature.Attributes
import ApiSurface.Signature.Results
/-!
# Declarations in progress

While a file is walked, each declaration that has been visited and not yet left stands as a frame
on a stack.  This module holds the frames, the rows they start from and the row that a function is
finished to.
-/

namespace ApiSurface

/-! ## 1. Frames -/

inductive FrameKind
  | moduleFrame | classFrame | functionFrame | enumFrame | assignmentsFrame
  deriving DecidableEq

def FrameKind.name : FrameKind → String
  | .moduleFrame => "module"
  | .classFrame => "class"
  | .functionFrame => "function"
  | .enumFrame => "enum"
  | .assignmentsFrame => "assignments"

/-- A class in progress, with the names of its attributes so far. -/
structure ClassFrame where
  row : ClassRow
  head : ClassHead
  attributeNames : List String

structure FunctionFrame where
  id : String
  head : FunctionHead
  body : List Statement
  isPublic : Bool
  /-- Whether the function stands directly in the module. -/
  moduleLevel : Bool

/-- An enum in progress, with the names of its instances so far. -/
structure EnumFrame where
  row : EnumRow
  instanceNames : List String

inductive Frame
  | module (row : ModuleRow)
  | class (frame : ClassFrame)
  | function (frame : FunctionFrame)
  | enum (frame : EnumFrame)
  | assignments (a : Assignment)

def Frame.kind : Frame → FrameKind
  | .module _ => .moduleFrame
  | .class _ => .classFrame
  | .function _ => .functionFrame
  | .enum _ => .enumFrame
  | .assignments _ => .assignmentsFrame

/-! ## 2. Errors -/

/-- Why the stack does not fit what is visited or left. -/
inductive AssemblyError
  | underflow
  | unexpectedFrame (expected : List FrameKind) (found : FrameKind)
  | invalidParent (parent : FrameKind)
  | unbalanced (remaining : Nat)
  deriving DecidableEq

namespace AssemblyError

def message : AssemblyError → String
  | .underflow => "declaration stack underflow"
  | .unexpectedFrame expected found =>
    let names := Text.joinWith " or ".toList (expected.map fun k => k.name.toList)
    "expected a " ++ String.ofList names ++ " frame on leave, found " ++ found.name
  | .invalidParent parent => "assignment frame has an invalid parent: " ++ parent.name
  | .unbalanced remaining => toString remaining ++ " frame(s) still open after leaving the module"

def toError (e : AssemblyError) : Error := .internalInvariant e.message

end AssemblyError

/-! ## 3. Kinds of classes -/

namespace ClassHead

/-- Whether one of the names is an ancestor, by the checker's linearization or the bases. -/
def hasAncestor (head : ClassHead) (names : List String) : Bool :=
  (head.mro ++ head.bases).any names.contains

def isEnum (head : ClassHead) : Bool :=
  head.hasAncestor ["enum.Enum", "enum.IntEnum", "enum.StrEnum", "enum.Flag", "enum.IntFlag"]

def isException (head : ClassHead) : Bool := head.hasAncestor ["builtins.BaseException"]

end ClassHead

/-! ## 4. Rows -/

/-- The row of a module before its declarations. -/
def SourceFile.row (f : SourceFile) : ModuleRow where
  id := Id.ofPath f.path
  name := Text.lastComponent f.fullname
  docstring := String.ofList (DocstringStyle.cleaned f.docstring)
  qualifiedImports := qualifiedImports f.imports
  wildcardImports := wildcardImports f.imports
  classes := []
  functions := []
  enums := []

namespace ModuleContext

def typeParameter (ctx : ModuleContext) (v : TypeVarDef) : TypeParameter where
  name := v.name
  variance := v.variance
  bound := Annotation.boundType ctx.scope v.upperBound

/-- The package entries that offer a declaration, which is one directly in the module. -/
def reexportedBy (ctx : ModuleContext) (moduleLevel : Bool) (qname : String) : List String :=
  if moduleLevel then ctx.index.reexportedBy qname else []

/-- The row of a class before its members. -/
def classRow (ctx : ModuleContext) (head : ClassHead) (id : String) (isPublic moduleLevel : Bool) :
    ClassRow where
  id := id
  name := head.name
  qualifiedName := head.fullname
  superclasses := head.bases
  isPublic := isPublic
  isException := head.isException
  docstring := ctx.style.describeClass head
  constructor? := none
  constructorFullDocstring := ""
  attributes := []
  methods := []
  classes := []
  typeParameters := head.typeVars.map ctx.typeParameter
  reexportedBy := ctx.reexportedBy moduleLevel head.fullname

/-- The row of an enum before its instances. -/
def enumRow (ctx : ModuleContext) (head : ClassHead) (id : String) (isPublic : Bool) :
    EnumRow where
  id := id
  name := head.name
  qualifiedName := head.fullname
  isPublic := isPublic
  docstring := ctx.style.describeClass head
  instances := []

/-- The frame of a class or enum. -/
def classFrame (ctx : ModuleContext) (head : ClassHead) (id : String)
    (isPublic moduleLevel : Bool) : Frame :=
  if head.isEnum then .enum { row := ctx.enumRow head id isPublic, instanceNames := [] }
  else .class { row := ctx.classRow head id isPublic moduleLevel, head, attributeNames := [] }

/-- The type variables in the signature of a function. -/
def functionTypeVars (ctx : ModuleContext) (f : FunctionFrame) (owner : Option ClassHead) :
    List ApiType :=
  ctx.parameterTypeVars f.head ++ ctx.resultTypeVars f.head f.body owner

def functionRow (ctx : ModuleContext) (f : FunctionFrame) (parameters : List ParameterRow)
    (results : List ResultRow) (owner : Option ClassHead) : FunctionRow where
  id := f.id
  name := f.head.name
  qualifiedName := f.head.fullname
  isPublic := f.isPublic
  isStatic := f.head.isStatic
  isClassMethod := f.head.isClass
  isProperty := f.head.isProperty
  docstring := ctx.style.describeFunction f.head
  parameters := parameters.map ParameterRow.id
  results := results.map ResultRow.id
  typeVarTypes := Ascending.ofList (ctx.functionTypeVars f owner)
  reexportedBy := ctx.reexportedBy f.moduleLevel f.head.fullname

end ModuleContext

end ApiSurface
