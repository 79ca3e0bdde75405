import ApiSurface.Api.Basic
import ApiSurface.Assembly.Frame
import ApiSurface.Tree.Walk
/-!
# Assembling the model of a file

A walk over a file builds its part of the model.  Visiting a declaration pushes a frame, leaving it
pops the frame, finishes the row and lists its id with its parent:

* a class goes to the module or class around it, an enum always to the module;
* a function goes to the module, or to the methods or the constructor of its class;
* an assignment in a class gives attributes, in an enum instances, and in an initializer the
  attributes that it binds on the receiver.

Declarations inside functions and enums are skipped, and so is every declaration whose id was
claimed before in the file.
-/

namespace ApiSurface

structure Assembly where
  /-- The declarations in progress, innermost first. -/
  stack : List Frame := []
  api : Api := {}
  /-- The ids of modules, classes, enums and functions so far. -/
  claimed : List String := []
  /-- How many declarations are open that are skipped. -/
  skipped : Nat := 0
  error : Option AssemblyError := none

namespace Assembly

/-- Records an error; the first one stays. -/
def fail (s : Assembly) (e : AssemblyError) : Assembly := { s with error := s.error.or (some e) }

def push (s : Assembly) (frame : Frame) : Assembly := { s with stack := frame :: s.stack }

/-- Whether to go on. -/
def flow (s : Assembly) : Flow := if s.error.isSome then .stop else .descend

/-! ## 1. Visiting -/

/-- What a frame is to the declarations directly in it, if it takes any: its id, and where they
stand. -/
def scope? (ctx : ModuleContext) : Frame → Option (String × Container)
  | .module row => some (row.id, .module ctx.module)
  | .class frame => some (frame.row.id, .class frame.row.isPublic)
  | _ => none

/-- The id for a declaration on top of the stack and where it stands; none if it is skipped. -/
def claim? (ctx : ModuleContext) (s : Assembly) (name : String) : Option (String × Container) := do
  let (owner, container) ← s.stack.head?.bind (scope? ctx)
  let id := Id.child owner name
  if s.claimed.contains id then none else some (id, container)

def visitFile (s : Assembly) (f : SourceFile) : Flow × Assembly :=
  if s.stack.isEmpty then
    let row := f.row
    (.descend, ({ s with claimed := row.id :: s.claimed }).push (.module row))
  else (.stop, s.fail (.unbalanced s.stack.length))

/-- Claims an id and pushes a frame, or skips the declaration. -/
def declare (ctx : ModuleContext) (s : Assembly) (name : String)
    (frame : String → Container → Frame) : Flow × Assembly :=
  match s.claim? ctx name with
  | some (id, container) =>
    (.descend, ({ s with claimed := id :: s.claimed }).push (frame id container))
  | none => (.skip, { s with skipped := s.skipped + 1 })

def visitClass (ctx : ModuleContext) (s : Assembly) (head : ClassHead) : Flow × Assembly :=
  s.declare ctx head.name fun id container =>
    ctx.classFrame head id (ctx.index.isPublic head.name head.fullname container)
      container.isModule

/-- Whether a function is public; an initializer is as public as its class. -/
def functionIsPublic (ctx : ModuleContext) (head : FunctionHead) (container : Container) : Bool :=
  match container with
  | .class isPublic =>
    if head.name == DocstringStyle.initializer then isPublic
    else ctx.index.isPublic head.name head.fullname container
  | .module _ => ctx.index.isPublic head.name head.fullname container

def visitFunction (ctx : ModuleContext) (s : Assembly) (head : FunctionHead)
    (body : List Statement) : Flow × Assembly :=
  s.declare ctx head.name fun id container =>
    .function { id, head, body, isPublic := functionIsPublic ctx head container,
                moduleLevel := container.isModule }

def visitAssignment (s : Assembly) (a : Assignment) : Flow × Assembly :=
  if s.error.isSome then (.stop, s) else (.descend, s.push (.assignments a))

/-! ## 2. Leaving -/

/-- Finishes the module, which is the only frame. -/
def finishModule (s : Assembly) : Assembly :=
  match s.stack with
  | [] => s.fail .underflow
  | .module row :: [] => { s with stack := [], api := s.api.addModule row }
  | .module _ :: rest => ({ s with stack := rest }).fail (.unbalanced rest.length)
  | frame :: rest => ({ s with stack := rest }).fail (.unexpectedFrame [.moduleFrame] frame.kind)

/-- The stack with an enum listed by the module at its bottom. -/
def listEnum (id : String) (stack : List Frame) : Except AssemblyError (List Frame) :=
  match stack.getLast? with
  | some (.module row) => .ok (stack.dropLast ++ [.module { row with enums := row.enums ++ [id] }])
  | some frame => .error (.unexpectedFrame [.moduleFrame] frame.kind)
  | none => .error .underflow

/-- The stack with a class listed by the module or class on top. -/
def listClass (id : String) : List Frame → Except AssemblyError (List Frame)
  | .module row :: rest => .ok (.module { row with classes := row.classes ++ [id] } :: rest)
  | .class f :: rest =>
    .ok (.class { f with row := { f.row with classes := f.row.classes ++ [id] } } :: rest)
  | frame :: _ => .error (.unexpectedFrame [.moduleFrame, .classFrame] frame.kind)
  | [] => .error .underflow

/-- Goes on with a new stack and model, or records the error and drops the frame on top. -/
def settle (s : Assembly) (rest : List Frame) (stack : Except AssemblyError (List Frame))
    (add : Api → Api) : Assembly :=
  match stack with
  | .ok stack => { s with stack, api := add s.api }
  | .error e => ({ s with stack := rest }).fail e

def finishClass (s : Assembly) : Assembly :=
  match s.stack with
  | [] => s.fail .underflow
  | .class f :: rest => s.settle rest (listClass f.row.id rest) fun api => api.addClass f.row
  | .enum f :: rest => s.settle rest (listEnum f.row.id rest) fun api => api.addEnum f.row
  | frame :: rest => ({ s with stack := rest }).fail (.unexpectedFrame [.classFrame] frame.kind)

/-- The stack with a function listed by the module or class on top. -/
def listFunction (row : FunctionRow) : List Frame → Except AssemblyError (List Frame)
  | .module m :: rest => .ok (.module { m with functions := m.functions ++ [row.id] } :: rest)
  | .class f :: rest =>
    if row.name == DocstringStyle.initializer then
      let c := { f.row with
        constructor? := some row.id
        constructorFullDocstring := row.docstring.fullDocstring }
      .ok (.class { f with row := c } :: rest)
    else .ok (.class { f with row := { f.row with methods := f.row.methods ++ [row.id] } } :: rest)
  | frame :: _ => .error (.unexpectedFrame [.moduleFrame, .classFrame] frame.kind)
  | [] => .error .underflow

/-- The class on top of a stack. -/
def owner? : List Frame → Option ClassHead
  | .class f :: _ => some f.head
  | _ => none

def finishFunction (ctx : ModuleContext) (s : Assembly) : Assembly :=
  match s.stack with
  | [] => s.fail .underflow
  | .function f :: rest =>
    let owner := owner? rest
    let parameters := ctx.parameters f.head f.id owner
    let results := ctx.results f.head f.body f.id owner
    let row := ctx.functionRow f parameters results owner
    s.settle rest (listFunction row rest) fun api =>
      (results.foldl Api.addResult (parameters.foldl Api.addParameter api)).addFunction row
  | frame :: rest => ({ s with stack := rest }).fail (.unexpectedFrame [.functionFrame] frame.kind)

/-- A class with the attributes of an assignment, and the rows of these. -/
def addAttributes (ctx : ModuleContext) (f : ClassFrame) (receiver : Option String)
    (a : Assignment) : ClassFrame × List AttributeRow :=
  let owner : AttributeOwner :=
    { id := f.row.id, head := f.head, isPublic := f.row.isPublic, receiver }
  let rows := ctx.attributes owner f.attributeNames a
  ({ f with
      row := { f.row with attributes := f.row.attributes ++ rows.map AttributeRow.id }
      attributeNames := f.attributeNames ++ rows.map AttributeRow.name }, rows)

/-- An enum with the instances of an assignment, and the rows of these. -/
def addInstances (f : EnumFrame) (a : Assignment) : EnumFrame × List EnumInstanceRow :=
  let rows := enumInstances f.row.id f.instanceNames a
  ({ row := { f.row with instances := f.row.instances ++ rows.map EnumInstanceRow.id }
     instanceNames := f.instanceNames ++ rows.map EnumInstanceRow.name }, rows)

/-- The receiver whose members a function binds as attributes: that of an initializer. -/
def receiver? (head : FunctionHead) : Option String :=
  if head.name == DocstringStyle.initializer then
    (head.arguments.head?.filter Argument.isSelf).map Argument.name
  else none

/-- What an assignment means where it stands. -/
def assign (ctx : ModuleContext) (s : Assembly) (a : Assignment) : Assembly :=
  match s.stack with
  | [] => s.fail .underflow
  | .module _ :: _ => s
  | .class f :: rest =>
    let (f, rows) := addAttributes ctx f none a
    { s with stack := .class f :: rest, api := rows.foldl Api.addAttribute s.api }
  | .enum f :: rest =>
    let (f, rows) := addInstances f a
    { s with stack := .enum f :: rest, api := rows.foldl Api.addEnumInstance s.api }
  | .function g :: .class f :: rest =>
    match receiver? g.head with
    | some receiver =>
      let (f, rows) := addAttributes ctx f (some receiver) a
      { s with
        stack := .function g :: .class f :: rest, api := rows.foldl Api.addAttribute s.api }
    | none => s
  | .function _ :: _ => s
  | .assignments _ :: _ => s.fail (.invalidParent .assignmentsFrame)

def finishAssignment (ctx : ModuleContext) (s : Assembly) : Assembly :=
  match s.stack with
  | [] => s.fail .underflow
  | .assignments a :: rest => ({ s with stack := rest }).assign ctx a
  | frame :: rest =>
    ({ s with stack := rest }).fail (.unexpectedFrame [.assignmentsFrame] frame.kind)

/-- Leaves a declaration that may have been skipped. -/
def leaveDeclared (s : Assembly) (finish : Assembly → Assembly) : Assembly :=
  if 0 < s.skipped then { s with skipped := s.skipped - 1 }
  else if s.error.isSome then s else finish s

/-! ## 3. The walk -/

def visitor (ctx : ModuleContext) : Visitor Assembly where
  visit node s := match node with
    | .file f => s.visitFile f
    | .statement _ => (s.flow, s)
    | .classDef head _ => s.visitClass ctx head
    | .funcDef head body => s.visitFunction ctx head body
    | .assignment a => s.visitAssignment a
    | _ => (.descend, s)
  leave node s := match node with
    | .file _ => if s.error.isSome then s else s.finishModule
    | .classDef .. => s.leaveDeclared finishClass
    | .funcDef .. => s.leaveDeclared (finishFunction ctx)
    | .assignment _ => if s.error.isSome then s else s.finishAssignment ctx
    | _ => s

/-- The model, if the stack is empty and nothing went wrong. -/
def finish (s : Assembly) : Except AssemblyError Api :=
  match s.error with
  | some e => .error e
  | none => if s.stack.isEmpty then .ok s.api else .error (.unbalanced s.stack.length)

end Assembly

/-- The part of the model that a file contributes. -/
def SourceFile.assemble (f : SourceFile) (index : PackageIndex) (style : DocstringProvider) :
    Except AssemblyError Api :=
  let ctx : ModuleContext := { index, module := f.fullname, style }
  match (Assembly.visitor ctx).walkFile f {} with
  | .ok s => s.finish
  | .error s => s.finish

end ApiSurface
