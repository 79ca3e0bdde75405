import ApiSurface.Signature.Parameters
import ApiSurface.Tree.Scope
/-!
# Results

A function has one result for each component of a tuple that it is annotated to return, one for any
other type and none for `None`.  Without an annotation its `return` statements tell: the types of
the returned expressions, as far as they can be determined, are laid side by side, tuples component
by component, and each column becomes the union of its types.

Results are named after the docstring where it declares a result of the same type, and else
numbered.
-/

namespace ApiSurface

/-! ## 1. Types of returned expressions -/

namespace Expression

/-- The type that the checker inferred, as far as it says anything. -/
def checkedType? (s : TypeScope) (e : Expression) : Option ApiType :=
  (e.inferredType?.bind fun t => t.declared? s none).filter fun t => !t.isUnknown

def checkedTypeVars (s : TypeScope) (e : Expression) : List ApiType :=
  match e.inferredType? with
  | some t => t.declaredTypeVars s none
  | none => []

/-- Operators that give a truth value. -/
def isLogical : Expression → Bool
  | .op symbol _ _ _ => symbol == "and" || symbol == "or"
  | .comparison _ => true
  | .unary symbol _ _ => symbol == "not"
  | _ => false

/-- The type of a list display with elements of these types. -/
def listType (types : List ApiType) : ApiType :=
  .list (if types.isEmpty then [] else [.unionOf types])

/-- The type of an expression without parts: that of its literal, of the receiver of a method, of
a truth value, or the one that was inferred. -/
def simpleType? (s : TypeScope) (owner : Option ClassHead) (e : Expression) : Option ApiType :=
  match e with
  | .name "self" .. =>
    match owner with
    | some c => some (.named c.name c.fullname)
    | none => e.checkedType? s
  | e => if e.isLogical then some (.builtin "bool") else e.checkedType? s

mutual
/-- The type of a returned expression; none where nothing is known about it. -/
def type? (s : TypeScope) (owner : Option ClassHead) : Expression → Option ApiType
  | .tuple items => some (.tuple ((types s owner items).map fun t => t.getD .unknown))
  | .list items => ((types s owner items).mapM id).map listType
  | e => match e.literalType? with
    | some t => some t
    | none => e.simpleType? s owner

def types (s : TypeScope) (owner : Option ClassHead) : List Expression → List (Option ApiType)
  | [] => []
  | e :: more => e.type? s owner :: types s owner more
end

/-- Whether the type comes from the checker. -/
def isChecked (owner : Option ClassHead) (e : Expression) : Bool :=
  e.literalType?.isNone && !e.isLogical &&
    match e with
    | .name "self" .. => owner.isNone
    | _ => true

mutual
/-- The type variables met while an expression is typed.  A list is given up at its first element
without a type. -/
def typeVars (s : TypeScope) (owner : Option ClassHead) : Expression → List ApiType
  | .tuple items => typeVarsIn s owner items
  | .list items => typeVarsUntilUntyped s owner items
  | e => if e.isChecked owner then e.checkedTypeVars s else []

def typeVarsIn (s : TypeScope) (owner : Option ClassHead) : List Expression → List ApiType
  | [] => []
  | e :: more => e.typeVars s owner ++ typeVarsIn s owner more

def typeVarsUntilUntyped (s : TypeScope) (owner : Option ClassHead) :
    List Expression → List ApiType
  | [] => []
  | e :: more =>
    e.typeVars s owner ++
      if (e.type? s owner).isSome then typeVarsUntilUntyped s owner more else []
end

end Expression

/-! ## 2. Slots -/

/-- The components of a tuple type, or the type alone. -/
def ApiType.components : ApiType → List ApiType
  | .tuple types => types
  | t => [t]

def ApiType.isTuple : ApiType → Bool
  | .tuple _ => true
  | _ => false

/-- The slots of a function annotated with a type. -/
def annotatedSlots (a : Annotation) (t : ApiType) : List ApiType :=
  match a with
  | .none => []
  | _ =>
    if t.isNone then []
    else match t with
      | .tuple [] => [t]
      | t => t.components

/-- The union of each column, rows that are too short being filled with none. -/
def columns (rows : List (List ApiType)) : List ApiType :=
  let width := (rows.map List.length).foldl Nat.max 0
  (List.range width).map fun i => .unionOf (rows.map fun row => row[i]?.getD ApiType.none)

/-- The slots of a function that returns values of these types. -/
def slotsOf (shapes : TypeSet) : List ApiType :=
  if shapes.toList.all ApiType.isNone then []
  else if shapes.toList.any ApiType.isTuple then columns (shapes.toList.map ApiType.components)
  else [.unionOf shapes.toList]

/-- The values returned in a body, nested classes and functions apart. -/
def returnsIn (body : List Statement) : List (Option Expression) :=
  (Statement.leavesIn body).filterMap fun
    | .returned value => some value
    | _ => none

namespace ModuleContext

/-- The determined types of what a body returns. -/
def returnedTypes (ctx : ModuleContext) (owner : Option ClassHead) (body : List Statement) :
    TypeSet :=
  Ascending.ofList ((returnsIn body).filterMap fun
    | none => some ApiType.none
    | some e => e.type? ctx.scope owner)

/-- The slots of a function by what its body returns. -/
def inferredSlots (ctx : ModuleContext) (owner : Option ClassHead) (body : List Statement) :
    List ApiType :=
  slotsOf (ctx.returnedTypes owner body)

def inferredTypeVars (ctx : ModuleContext) (owner : Option ClassHead) (body : List Statement) :
    List ApiType :=
  (returnsIn body).flatMap fun
    | none => []
    | some e => e.typeVars ctx.scope owner

def resultSlots (ctx : ModuleContext) (function : FunctionHead) (body : List Statement)
    (owner : Option ClassHead) : List ApiType :=
  match function.returnType with
  | some a =>
    match a.declared? ctx.scope function.unanalyzedReturnType with
    | some t => annotatedSlots a t
    | none => ctx.inferredSlots owner body
  | none => ctx.inferredSlots owner body

/-- The type variables met while the slots are determined. -/
def resultTypeVars (ctx : ModuleContext) (function : FunctionHead) (body : List Statement)
    (owner : Option ClassHead) : List ApiType :=
  match function.returnType with
  | some a =>
    if a.isUninformative then ctx.inferredTypeVars owner body
    else a.declaredTypeVars ctx.scope function.unanalyzedReturnType
  | none => ctx.inferredTypeVars owner body

end ModuleContext

/-! ## 3. Names -/

def numberedName (n : Nat) : String := "result_" ++ toString n

/-- The first number from `n` on whose name is not taken; `tries` bounds the names in the way. -/
def freshNumber (taken : List String) : (tries n : Nat) → Nat
  | 0, n => n
  | tries + 1, n =>
    if taken.contains (numberedName n) then freshNumber taken tries (n + 1) else n

/-- The declared result for a slot of some type, if one has a name that is not taken. -/
def declaredFor? (declared : List ResultDescription) (taken : List String) (t : ApiType) :
    Option ResultDescription :=
  declared.find? fun d => d.name != "" && !taken.contains d.name && d.type == some t

def resultRow (functionId name : String) (type : ApiType) (docstring : Option ResultDescription) :
    ResultRow :=
  { id := Id.child functionId name, name, type, docstring }

/-- Names slots in order.  Each slot comes with the declared result in its place, if declared
results and slots are as many; `n` is the last number given.  That is a number of 32 bits, but as it
is never more than the slots that have a name, less than `2 ^ 31` slots cannot make it overflow. -/
def nameSlots (functionId : String) (declared : List ResultDescription) :
    (taken : List String) → (n : Nat) → List (ApiType × Option ResultDescription) → List ResultRow
  | _, _, [] => []
  | taken, n, (t, inPlace) :: more =>
    match declaredFor? declared taken t with
    | some d =>
      resultRow functionId d.name t (some d)
        :: nameSlots functionId declared (d.name :: taken) n more
    | none =>
      let m := freshNumber taken taken.length (n + 1)
      resultRow functionId (numberedName m) t inPlace
        :: nameSlots functionId declared (numberedName m :: taken) m more

/-- Each slot with the declared result in its place; with none if their numbers differ. -/
def aligned (slots : List ApiType) (declared : List ResultDescription) :
    List (ApiType × Option ResultDescription) :=
  if declared.length = slots.length then slots.zip (declared.map some)
  else slots.map fun t => (t, none)

/-- The results of a function.  A lone slot takes the name of a lone declared result, whatever its
type. -/
def nameResults (functionId : String) (slots : List ApiType) (declared : List ResultDescription) :
    List ResultRow :=
  match slots, declared with
  | [t], [d] =>
    if d.name = "" then nameSlots functionId declared [] 0 (aligned slots declared)
    else [resultRow functionId d.name t (some d)]
  | _, _ => nameSlots functionId declared [] 0 (aligned slots declared)

def ModuleContext.results (ctx : ModuleContext) (function : FunctionHead) (body : List Statement)
    (functionId : String) (owner : Option ClassHead) : List ResultRow :=
  nameResults functionId (ctx.resultSlots function body owner) (ctx.style.describeResults function)

end ApiSurface
