import ApiSurface.Docstring.Style
import ApiSurface.Id
import ApiSurface.Signature.DeclaredType
/-!
# Parameters

The parameters of a function: how each gets its argument, its default if that is a literal, and its
type, which is declared or else that of the default.
-/

namespace ApiSurface

/-- A module under analysis, with what is known about its package. -/
structure ModuleContext where
  index : PackageIndex
  module : String
  style : DocstringProvider

def ModuleContext.scope (ctx : ModuleContext) : TypeScope := ⟨ctx.index.aliases, ctx.module⟩

namespace Argument

/-- How the parameter gets its argument; the receiver of a method is passed implicitly. -/
def assignedBy (a : Argument) : ParameterAssignment :=
  if a.isSelf || a.isCls then .implicit
  else match a.kind with
    | .star => .positionalVararg
    | .doubleStar => .namedVararg
    | .named | .namedOpt => .nameOnly
    | .pos | .opt => if a.posOnly then .positionOnly else .positionOrName

def default? (a : Argument) : Option Literal := a.initializer.bind Expression.literal?

def declared? (s : TypeScope) (a : Argument) : Option ApiType :=
  a.type.bind fun t => t.declared? s a.unanalyzedType

def type? (s : TypeScope) (a : Argument) : Option ApiType :=
  (a.declared? s).or (a.default?.map Literal.type)

def typeVars (s : TypeScope) (a : Argument) : List ApiType :=
  match a.type with
  | some t => t.declaredTypeVars s a.unanalyzedType
  | none => []

end Argument

namespace ModuleContext

/-- The row of a parameter of a function, which may be a method of `owner`. -/
def parameter (ctx : ModuleContext) (function : FunctionHead) (functionId : String)
    (owner : Option ClassHead) (a : Argument) : ParameterRow where
  id := Id.child functionId a.name
  name := a.name
  isOptional := a.initializer.isSome
  defaultValue := a.default?
  assignedBy := a.assignedBy
  docstring := ctx.style.describeParameter function owner a.name
  type := a.type? ctx.scope

def parameters (ctx : ModuleContext) (function : FunctionHead) (functionId : String)
    (owner : Option ClassHead) : List ParameterRow :=
  function.arguments.map (ctx.parameter function functionId owner)

def parameterTypeVars (ctx : ModuleContext) (function : FunctionHead) : List ApiType :=
  function.arguments.flatMap (Argument.typeVars ctx.scope)

end ModuleContext

end ApiSurface
