import ApiSurface.Analysis
/-!
# The declarations that a file keeps

The model of a file, said without a stack.  A scope is flattened to its classes, functions and
assignments; of these it keeps every assignment and each class and function whose id nothing before
it in the file has claimed.  The kept declarations form a tree of `Member`s, and every row of the
model belongs to one member: `Member.entities` lists the rows of a member in the order in which they
are added.

`SourceFile.model` is the model that results.  That the walk over the file arrives at just this
model is proved in `WalkedFile`.
-/

namespace ApiSurface

/-! ## 1. Flattening -/

/-- What can be declared in a scope. -/
inductive Declaration
  | class (head : ClassHead) (body : List Declaration)
  | function (head : FunctionHead) (body : List Statement)
  | assignment (a : Assignment)

namespace Statement

mutual
/-- The declarations that a statement holds for its scope, through blocks of every kind. -/
def declarations : Statement → List Declaration
  | .classDef head body => [.class head (declarationsIn body)]
  | .funcDef head body => [.function head body]
  | .assignment a => [.assignment a]
  | .block _ b => blockDeclarations b
  | .guarded body handlers orelse finalBody =>
    declarationsIn body ++ handlerDeclarations handlers ++ declarationsIn orelse
      ++ declarationsIn finalBody
  | _ => []

def declarationsIn : List Statement → List Declaration
  | [] => []
  | s :: more => s.declarations ++ declarationsIn more

def blockDeclarations : Block → List Declaration
  | .mk body orelse => declarationsIn body ++ declarationsIn orelse

def handlerDeclarations : List Block → List Declaration
  | [] => []
  | b :: more => blockDeclarations b ++ handlerDeclarations more
end

end Statement

def Declaration.assignment? : Declaration → Option Assignment
  | .assignment a => some a
  | _ => none

/-- The assignments of a scope. -/
def assignmentsOf (ds : List Declaration) : List Assignment := ds.filterMap Declaration.assignment?

/-! ## 2. Keeping -/

/-- A module or class as the declarations in it see it. -/
structure Scope where
  id : String
  place : Container
  /-- The class, unless the scope is a module. -/
  owner : Option ClassHead

/-- A kept declaration in its scope. -/
inductive Member
  | class (scope : Scope) (head : ClassHead) (members : List Member)
  | enum (scope : Scope) (head : ClassHead) (body : List Assignment)
  | function (scope : Scope) (head : FunctionHead) (body : List Statement)
  | assignment (a : Assignment)

namespace ModuleContext

/-- The scope that a class opens. -/
def classScope (ctx : ModuleContext) (scope : Scope) (head : ClassHead) : Scope where
  id := Id.child scope.id head.name
  place := .class (ctx.index.isPublic head.name head.fullname scope.place)
  owner := some head

mutual
/-- What a scope keeps of a declaration, and the ids that are claimed afterwards. -/
def keep (ctx : ModuleContext) (scope : Scope) : Declaration → (claimed : List String) →
    List Member × List String
  | .class head body, claimed =>
    let id := Id.child scope.id head.name
    if claimed.contains id then ([], claimed)
    else if head.isEnum then ([.enum scope head (assignmentsOf body)], id :: claimed)
    else
      let (members, after) := keepAll ctx (ctx.classScope scope head) body (id :: claimed)
      ([.class scope head members], after)
  | .function head body, claimed =>
    let id := Id.child scope.id head.name
    if claimed.contains id then ([], claimed) else ([.function scope head body], id :: claimed)
  | .assignment a, claimed => ([.assignment a], claimed)

def keepAll (ctx : ModuleContext) (scope : Scope) : List Declaration → (claimed : List String) →
    List Member × List String
  | [], claimed => ([], claimed)
  | d :: more, claimed =>
    let (first, between) := keep ctx scope d claimed
    let (rest, after) := keepAll ctx scope more between
    (first ++ rest, after)
end

end ModuleContext

namespace SourceFile

def context (f : SourceFile) (index : PackageIndex) (style : DocstringProvider) : ModuleContext :=
  { index, module := f.fullname, style }

/-- The scope of a module. -/
def scope (f : SourceFile) : Scope := ⟨Id.ofPath f.path, .module f.fullname, none⟩

/-- What a file keeps, and the ids that it claims.  Its own id comes before all others. -/
def kept (f : SourceFile) (ctx : ModuleContext) : List Member × List String :=
  ctx.keepAll f.scope (Statement.declarationsIn f.body) [Id.ofPath f.path]

def members (f : SourceFile) (ctx : ModuleContext) : List Member := (f.kept ctx).1

end SourceFile

/-! ## 3. Bindings -/

/-- A target with the assignment that binds it, and the receiver whose member it is. -/
structure Binding where
  receiver : Option String
  source : Assignment
  target : Target

def Binding.name (b : Binding) : String := b.target.name

def Assignment.bindings (a : Assignment) (receiver : Option String) : List Binding :=
  (a.boundTargets receiver).map fun t => ⟨receiver, a, t⟩

/-- The bindings whose names are not yet seen, each name once. -/
def freshBindings : (seen : List String) → List Binding → List Binding
  | _, [] => []
  | seen, b :: more =>
    if seen.contains b.name then freshBindings seen more
    else b :: freshBindings (b.name :: seen) more

/-- The assignments in the body of a function, nested declarations apart. -/
def bodyAssignments (body : List Statement) : List Assignment :=
  assignmentsOf (Statement.declarationsIn body)

/-- What a member binds as attributes of the class around it: plain names in the class itself, the
members of its receiver in an initializer. -/
def Member.bindings : Member → List Binding
  | .class .. => []
  | .enum .. => []
  | .function _ head body =>
    match Assembly.receiver? head with
    | some receiver => (bodyAssignments body).flatMap fun a => a.bindings (some receiver)
    | none => []
  | .assignment a => a.bindings none

/-! ## 4. Classes and their members -/

namespace Member

/-- The id under which a scope lists a class. -/
def classId? : Member → Option String
  | .class scope head _ => some (Id.child scope.id head.name)
  | _ => none

/-- The id under which a scope lists a function. -/
def functionId? : Member → Option String
  | .function scope head _ => some (Id.child scope.id head.name)
  | _ => none

mutual
/-- The enums at or below a member; the module lists them all. -/
def enumIds : Member → List String
  | .class _ _ members => enumIdsIn members
  | .enum scope head _ => [Id.child scope.id head.name]
  | _ => []

def enumIdsIn : List Member → List String
  | [] => []
  | m :: more => m.enumIds ++ enumIdsIn more
end

end Member

namespace ClassFrame

/-- A class before its members. -/
def start (ctx : ModuleContext) (scope : Scope) (head : ClassHead) : ClassFrame where
  row := ctx.classRow head (Id.child scope.id head.name)
    (ctx.index.isPublic head.name head.fullname scope.place) scope.place.isModule
  head := head
  attributeNames := []

def attributeRow (ctx : ModuleContext) (f : ClassFrame) (b : Binding) : AttributeRow :=
  ctx.attributeRow ⟨f.row.id, f.head, f.row.isPublic, b.receiver⟩ b.source b.target

/-- The attributes that bindings add to a class. -/
def newAttributes (ctx : ModuleContext) (f : ClassFrame) (bs : List Binding) : List AttributeRow :=
  (freshBindings f.attributeNames bs).map (f.attributeRow ctx)

/-- A class with the attributes of further bindings. -/
def bind (f : ClassFrame) (bs : List Binding) : ClassFrame :=
  let new := (freshBindings f.attributeNames bs).map Binding.name
  { f with
    row := { f.row with attributes := f.row.attributes ++ new.map (Id.child f.row.id) }
    attributeNames := f.attributeNames ++ new }

/-- A class with a member in its lists. -/
def list (ctx : ModuleContext) (f : ClassFrame) : Member → ClassFrame
  | .class scope head _ =>
    { f with row := { f.row with classes := f.row.classes ++ [Id.child scope.id head.name] } }
  | .function scope head _ =>
    let id := Id.child scope.id head.name
    if head.name == DocstringStyle.initializer then
      { f with row := { f.row with
          constructor? := some id
          constructorFullDocstring := (ctx.style.describeFunction head).fullDocstring } }
    else { f with row := { f.row with methods := f.row.methods ++ [id] } }
  | _ => f

/-- A class after a member. -/
def absorb (ctx : ModuleContext) (f : ClassFrame) (m : Member) : ClassFrame :=
  (f.bind m.bindings).list ctx m

end ClassFrame

/-! ## 5. Rows -/

namespace ModuleContext

/-- The row of a finished class. -/
def finishedClass (ctx : ModuleContext) (scope : Scope) (head : ClassHead)
    (members : List Member) : ClassRow :=
  (members.foldl (ClassFrame.absorb ctx) (.start ctx scope head)).row

def functionFrame (ctx : ModuleContext) (scope : Scope) (head : FunctionHead)
    (body : List Statement) : FunctionFrame where
  id := Id.child scope.id head.name
  head := head
  body := body
  isPublic := Assembly.functionIsPublic ctx head scope.place
  moduleLevel := scope.place.isModule

/-- The rows of a function: its parameters, its results and itself. -/
def functionEntities (ctx : ModuleContext) (scope : Scope) (head : FunctionHead)
    (body : List Statement) : List Entity :=
  let f := ctx.functionFrame scope head body
  let parameters := ctx.parameters head f.id scope.owner
  let results := ctx.results head body f.id scope.owner
  parameters.map .parameter ++ results.map .result
    ++ [.function (ctx.functionRow f parameters results scope.owner)]

end ModuleContext

/-- The names that the assignments of an enum bind, each once. -/
def instanceNames (body : List Assignment) : List String :=
  (freshBindings [] (body.flatMap fun a => a.bindings none)).map Binding.name

/-- An enum before its instances. -/
def EnumFrame.start (ctx : ModuleContext) (scope : Scope) (head : ClassHead) : EnumFrame where
  row := ctx.enumRow head (Id.child scope.id head.name)
    (ctx.index.isPublic head.name head.fullname scope.place)
  instanceNames := []

/-- The rows of an enum: its instances and itself. -/
def ModuleContext.enumEntities (ctx : ModuleContext) (scope : Scope) (head : ClassHead)
    (body : List Assignment) : List Entity :=
  let id := Id.child scope.id head.name
  let row := (EnumFrame.start ctx scope head).row
  (instanceNames body).map (fun name => .enumInstance ⟨Id.child id name, name⟩)
    ++ [.enum { row with instances := (instanceNames body).map (Id.child id) }]

namespace Member

mutual
/-- The rows of a member and of all members below it. -/
def entities (ctx : ModuleContext) : Member → List Entity
  | .class scope head members =>
    entitiesIn ctx (.start ctx scope head) members
      ++ [.class (ctx.finishedClass scope head members)]
  | .enum scope head body => ctx.enumEntities scope head body
  | .function scope head body => ctx.functionEntities scope head body
  | .assignment _ => []

/-- The rows that further members of a class bring, its attributes among them. -/
def entitiesIn (ctx : ModuleContext) (f : ClassFrame) : List Member → List Entity
  | [] => []
  | m :: more =>
    (f.newAttributes ctx m.bindings).map .attribute ++ m.entities ctx
      ++ entitiesIn ctx (f.absorb ctx m) more
end

end Member

namespace SourceFile

/-- The row of a module after its members. -/
def finishedRow (f : SourceFile) (members : List Member) : ModuleRow :=
  { f.row with
    classes := members.filterMap Member.classId?
    functions := members.filterMap Member.functionId?
    enums := Member.enumIdsIn members }

/-- All rows of a file, in the order in which they are added. -/
def entities (f : SourceFile) (ctx : ModuleContext) : List Entity :=
  (f.members ctx).flatMap (Member.entities ctx) ++ [.module (f.finishedRow (f.members ctx))]

/-- The model of a file. -/
def model (f : SourceFile) (ctx : ModuleContext) : Api := (f.entities ctx).foldl Api.add {}

end SourceFile

end ApiSurface
