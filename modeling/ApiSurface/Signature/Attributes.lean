import ApiSurface.Signature.Parameters
import ApiSurface.Visibility
/-!
# Attributes and enum instances

Assignments in the body of a class bind attributes, and so do assignments to the members of the
receiver in an initializer.  In an enum they bind its instances.  A name counts where it is bound
first.
-/

namespace ApiSurface

/-! ## 1. Targets -/

/-- A name bound by an assignment. -/
structure Target where
  name : String
  /-- The part of the value that the name is bound to, if it can be told. -/
  value : Option Expression
  /-- Whether the name is bound to the whole value. -/
  whole : Bool

namespace Expression

/-- The parts of a tuple or list, if there are `n` of them. -/
def parts (n : Nat) : Option Expression → List Expression
  | some (.tuple values) => if values.length = n then values else []
  | some (.list values) => if values.length = n then values else []
  | _ => []

/-- Whether this is the given name. -/
def isName (n : String) : Expression → Bool
  | .name m .. => m == n
  | _ => false

mutual
/-- The names that a target binds: plain names, or with a receiver its members.  Tuples and lists
are taken apart together with their values. -/
def targets (receiver : Option String) : Expression → (value : Option Expression) →
    (whole : Bool) → List Target
  | .name n .., value, whole =>
    match receiver with
    | none => [⟨n, value, whole⟩]
    | some _ => []
  | .member base n _, value, whole =>
    match receiver with
    | some r => if base.isName r then [⟨n, value, whole⟩] else []
    | none => []
  | .tuple items, value, _ => targetsIn receiver items (parts items.length value)
  | .list items, value, _ => targetsIn receiver items (parts items.length value)
  | _, _, _ => []

/-- The names that the parts of a target bind, each with the value in its place. -/
def targetsIn (receiver : Option String) : List Expression → List Expression → List Target
  | [], _ => []
  | e :: more, values =>
    e.targets receiver values.head? false ++ targetsIn receiver more values.tail
end

end Expression

def Assignment.boundTargets (a : Assignment) (receiver : Option String) : List Target :=
  a.targets.flatMap fun e => e.targets receiver a.value true

/-- The targets whose names are not yet seen, each name once. -/
def freshTargets : (seen : List String) → List Target → List Target
  | _, [] => []
  | seen, t :: more =>
    if seen.contains t.name then freshTargets seen more
    else t :: freshTargets (t.name :: seen) more

/-! ## 2. Rows -/

/-- A class whose attributes are collected. -/
structure AttributeOwner where
  id : String
  head : ClassHead
  isPublic : Bool
  /-- The receiver whose members count, in an initializer. -/
  receiver : Option String

namespace ModuleContext

/-- The type of an attribute: declared with the whole assignment, else that of a literal value. -/
def attributeType? (ctx : ModuleContext) (a : Assignment) (t : Target) : Option ApiType :=
  let declared := if t.whole then a.type.bind fun d => d.declared? ctx.scope a.unanalyzedType
    else none
  declared.or (t.value.bind Expression.literalType?)

def attributeRow (ctx : ModuleContext) (owner : AttributeOwner) (a : Assignment) (t : Target) :
    AttributeRow where
  id := Id.child owner.id t.name
  name := t.name
  isPublic := ctx.index.isPublic t.name (owner.head.fullname ++ "." ++ t.name)
    (.class owner.isPublic)
  isStatic := owner.receiver.isNone
  type := ctx.attributeType? a t
  docstring := ctx.style.describeAttribute owner.head t.name

/-- The attributes that an assignment adds to those seen. -/
def attributes (ctx : ModuleContext) (owner : AttributeOwner) (seen : List String)
    (a : Assignment) : List AttributeRow :=
  (freshTargets seen (a.boundTargets owner.receiver)).map (ctx.attributeRow owner a)

/-- The type variables in the declarations of these attributes. -/
def attributeTypeVars (ctx : ModuleContext) (owner : AttributeOwner) (seen : List String)
    (a : Assignment) : List ApiType :=
  (freshTargets seen (a.boundTargets owner.receiver)).flatMap fun t =>
    match a.type with
    | some d => if t.whole then d.declaredTypeVars ctx.scope a.unanalyzedType else []
    | none => []

end ModuleContext

/-- The instances that an assignment adds to those of an enum. -/
def enumInstances (enumId : String) (seen : List String) (a : Assignment) : List EnumInstanceRow :=
  (freshTargets seen (a.boundTargets none)).map fun t =>
    { id := Id.child enumId t.name, name := t.name }

end ApiSurface
