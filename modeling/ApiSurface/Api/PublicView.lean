import ApiSurface.Api.Basic
/-!
# The public part of a model

The view keeps every module and below it what is public along the whole way: public classes,
functions and enums that a kept module or class lists, the public attributes of kept classes, and
everything that belongs to a kept function or enum.  Child lists shrink to the ids that are kept.

Classes may be nested, and a model read from a document may nest them in a circle.  There is no view
of such a model.
-/

namespace ApiSurface.Api

/-! ## 1. What is public -/

def publicClass? (a : Api) (id : String) : Option ClassRow :=
  (a.classes.get? id).filter ClassRow.isPublic

def publicFunction? (a : Api) (id : String) : Option FunctionRow :=
  (a.functions.get? id).filter FunctionRow.isPublic

def publicAttribute? (a : Api) (id : String) : Option AttributeRow :=
  (a.attributes.get? id).filter AttributeRow.isPublic

def publicEnum? (a : Api) (id : String) : Option EnumRow :=
  (a.enums.get? id).filter EnumRow.isPublic

/-- A class with its child lists shrunk to what is public. -/
def shrinkClass (a : Api) (c : ClassRow) : ClassRow :=
  { c with
    constructor? := c.constructor?.filter fun id => (a.publicFunction? id).isSome
    attributes := c.attributes.filter fun id => (a.publicAttribute? id).isSome
    methods := c.methods.filter fun id => (a.publicFunction? id).isSome
    classes := c.classes.filter fun id => (a.publicClass? id).isSome }

def shrinkModule (a : Api) (m : ModuleRow) : ModuleRow :=
  { m with
    classes := m.classes.filter fun id => (a.publicClass? id).isSome
    functions := m.functions.filter fun id => (a.publicFunction? id).isSome
    enums := m.enums.filter fun id => (a.publicEnum? id).isSome }

/-! ## 2. The view -/

/-- The public class with an id and the public classes nested in it, at most `depth` levels; none
if they go deeper.  A chain of nested classes that is longer than the table names one of them
twice, so with a depth above the size of the table the answer is none exactly for circles. -/
def classesBelow (a : Api) : (depth : Nat) → (id : String) → Option (List ClassRow)
  | 0, _ => none
  | depth + 1, id =>
    match a.publicClass? id with
    | none => some []
    | some c => (c.classes.mapM (classesBelow a depth)).map fun nested => c :: nested.flatten

/-- The classes that the view keeps, as rows of the model. -/
def keptClasses? (a : Api) : Option (List ClassRow) :=
  ((a.modules.toList.flatMap ModuleRow.classes).mapM
    (a.classesBelow (a.classes.size + 1))).map List.flatten

/-- The view of a model, given the classes that it keeps. -/
def viewOf (a : Api) (classes : List ClassRow) : Api :=
  let functions := (a.modules.toList.flatMap ModuleRow.functions
    ++ classes.flatMap fun c => c.methods ++ c.constructor?.toList).filterMap a.publicFunction?
  let enums := (a.modules.toList.flatMap ModuleRow.enums).filterMap a.publicEnum?
  { distribution := a.distribution
    package := a.package
    version := a.version
    modules := .ofList (a.modules.toList.map a.shrinkModule)
    classes := .ofList (classes.map a.shrinkClass)
    functions := .ofList functions
    parameters := .ofList (functions.flatMap a.parametersOf)
    attributes := .ofList ((classes.flatMap ClassRow.attributes).filterMap a.publicAttribute?)
    results := .ofList (functions.flatMap a.resultsOf)
    enums := .ofList enums
    enumInstances := .ofList ((enums.flatMap EnumRow.instances).filterMap a.enumInstances.get?) }

/-- The public part of a model; none if its public classes are nested in a circle. -/
def publicView? (a : Api) : Option Api := a.keptClasses?.map a.viewOf

end ApiSurface.Api
