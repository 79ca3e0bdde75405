import ApiSurface.Proofs.Tables
import ApiSurface.Proofs.WalkedFile
import Mathlib.Data.List.Basic
/-!
# The outline of a file

The outline of a model is what it lists: the child lists of modules, classes, functions and enums,
and the ids of all rows.  For a file the outline can be read off its kept members by a recursion
that knows nothing of frames: each kept class or function has its entry, and each list of an entry
is a list of its members' ids or names.  `SourceFile.outline` says so in one place, and
`assemble_outline` shows that the walk over the file arrives at this outline.
-/

namespace ApiSurface

/-! ## 1. Outlines of models -/

structure ModuleOutline where
  id : String
  classes : List String
  functions : List String
  enums : List String
  deriving DecidableEq

structure ClassOutline where
  id : String
  constructor? : Option String
  attributes : List String
  methods : List String
  classes : List String
  deriving DecidableEq

structure FunctionOutline where
  id : String
  parameters : List String
  results : List String
  deriving DecidableEq

structure EnumOutline where
  id : String
  instances : List String
  deriving DecidableEq

instance : HasId ModuleOutline := ⟨ModuleOutline.id⟩
instance : HasId ClassOutline := ⟨ClassOutline.id⟩
instance : HasId FunctionOutline := ⟨FunctionOutline.id⟩
instance : HasId EnumOutline := ⟨EnumOutline.id⟩

/-- The child lists and the ids of a model. -/
structure Outline where
  modules : Table ModuleOutline
  classes : Table ClassOutline
  functions : Table FunctionOutline
  enums : Table EnumOutline
  parameters : NameSet
  attributes : NameSet
  results : NameSet
  enumInstances : NameSet
  deriving DecidableEq

def ModuleRow.outline (r : ModuleRow) : ModuleOutline := ⟨r.id, r.classes, r.functions, r.enums⟩

def ClassRow.outline (r : ClassRow) : ClassOutline :=
  ⟨r.id, r.constructor?, r.attributes, r.methods, r.classes⟩

def FunctionRow.outline (r : FunctionRow) : FunctionOutline := ⟨r.id, r.parameters, r.results⟩

def EnumRow.outline (r : EnumRow) : EnumOutline := ⟨r.id, r.instances⟩

def Api.outline (a : Api) : Outline where
  modules := a.modules.mapKey ModuleRow.outline fun _ => rfl
  classes := a.classes.mapKey ClassRow.outline fun _ => rfl
  functions := a.functions.mapKey FunctionRow.outline fun _ => rfl
  enums := a.enums.mapKey EnumRow.outline fun _ => rfl
  parameters := a.parameters.keys
  attributes := a.attributes.keys
  results := a.results.keys
  enumInstances := a.enumInstances.keys

/-! ## 2. Names that assignments bind -/

namespace Expression

mutual
/-- The parts of a target, tuples and lists taken apart. -/
def leaves : Expression → List Expression
  | .tuple items => leavesIn items
  | .list items => leavesIn items
  | e => [e]

def leavesIn : List Expression → List Expression
  | [] => []
  | e :: more => e.leaves ++ leavesIn more
end

def plainName? : Expression → Option String
  | .name n .. => some n
  | _ => none

/-- The name of a member of the receiver. -/
def memberName? (receiver : String) : Expression → Option String
  | .member (.name r ..) n _ => if r = receiver then some n else none
  | _ => none

end Expression

namespace Assignment

/-- The plain names among the targets. -/
def plainNames (a : Assignment) : List String :=
  (Expression.leavesIn a.targets).filterMap Expression.plainName?

/-- The members of the receiver among the targets. -/
def memberNames (receiver : String) (a : Assignment) : List String :=
  (Expression.leavesIn a.targets).filterMap (Expression.memberName? receiver)

end Assignment

/-! ## 3. Outlines of files -/

namespace Member

/-- What a member binds in the class around it.  An initializer binds members of its receiver. -/
def attributeNames : Member → List String
  | .assignment a => a.plainNames
  | .function _ head body =>
    match head.name == DocstringStyle.initializer, head.arguments with
    | true, first :: _ =>
      if first.isSelf then (bodyAssignments body).flatMap (Assignment.memberNames first.name)
      else []
    | _, _ => []
  | _ => []

/-- The id of a function that is an initializer. -/
def initializerId? : Member → Option String
  | .function scope head _ =>
    if head.name == DocstringStyle.initializer then some (Id.child scope.id head.name) else none
  | _ => none

/-- The id of a function that is not an initializer. -/
def methodId? : Member → Option String
  | .function scope head _ =>
    if head.name == DocstringStyle.initializer then none else some (Id.child scope.id head.name)
  | _ => none

mutual
/-- A member after all members below it. -/
def withBelow : Member → List Member
  | .class scope head members => withBelowIn members ++ [.class scope head members]
  | .enum scope head body => [.enum scope head body]
  | .function scope head body => [.function scope head body]
  | .assignment a => [.assignment a]

def withBelowIn : List Member → List Member
  | [] => []
  | m :: more => m.withBelow ++ withBelowIn more
end

/-- The entry of a class.  Of its initializers, which share an id, one is kept at most. -/
def classOutline? : Member → Option ClassOutline
  | .class scope head members =>
    let id := Id.child scope.id head.name
    some {
      id
      constructor? := (members.filterMap initializerId?).getLast?
      attributes := (members.flatMap attributeNames).eraseDups.map (Id.child id)
      methods := members.filterMap methodId?
      classes := members.filterMap classId? }
  | _ => none

def functionOutline? (ctx : ModuleContext) : Member → Option FunctionOutline
  | .function scope head body =>
    let id := Id.child scope.id head.name
    some {
      id
      parameters := head.arguments.map fun a => Id.child id a.name
      results := (ctx.results head body id scope.owner).map ResultRow.id }
  | _ => none

def enumOutline? : Member → Option EnumOutline
  | .enum scope head body =>
    let id := Id.child scope.id head.name
    some ⟨id, (body.flatMap Assignment.plainNames).eraseDups.map (Id.child id)⟩
  | _ => none

end Member

/-- The outline of a file.  The module lists the enums at any depth. -/
def SourceFile.outline (f : SourceFile) (ctx : ModuleContext) : Outline :=
  let members := f.members ctx
  let all := Member.withBelowIn members
  let classes := all.filterMap Member.classOutline?
  let functions := all.filterMap (Member.functionOutline? ctx)
  let enums := all.filterMap Member.enumOutline?
  { modules := .ofList [{
      id := Id.ofPath f.path
      classes := members.filterMap Member.classId?
      functions := members.filterMap Member.functionId?
      enums := enums.map EnumOutline.id }]
    classes := .ofList classes
    functions := .ofList functions
    enums := .ofList enums
    parameters := .ofList (functions.flatMap FunctionOutline.parameters)
    attributes := .ofList (classes.flatMap ClassOutline.attributes)
    results := .ofList (functions.flatMap FunctionOutline.results)
    enumInstances := .ofList (enums.flatMap EnumOutline.instances) }

/-! ## 4. Bound names -/

namespace Expression

theorem memberName?_member (receiver : String) (base : Expression) (n : String)
    (type : Option Annotation) : (member base n type).memberName? receiver
      = if base.isName receiver then some n else none := by
  cases base with
  | name r fullname t => simp only [memberName?, isName, beq_iff_eq]
  | _ => rfl

/-- The name that a part of a target binds, with a receiver or without. -/
def boundName? (receiver : Option String) (e : Expression) : Option String :=
  receiver.elim e.plainName? fun r => e.memberName? r

mutual
theorem targets_names (receiver : Option String) : (e : Expression) →
    (value : Option Expression) → (whole : Bool) →
    (e.targets receiver value whole).map Target.name = e.leaves.filterMap (boundName? receiver)
  | .tuple items, value, _ => by rw [targets, leaves, targetsIn_names]
  | .list items, value, _ => by rw [targets, leaves, targetsIn_names]
  | .name .., _, _ => by cases receiver <;> rfl
  | .member base n type, _, _ => by
    cases receiver with
    | none => rfl
    | some r =>
      simp only [targets, leaves, boundName?, Option.elim, memberName?_member, List.filterMap_cons,
        List.filterMap_nil]
      split <;> rfl
  | .str _, _, _ | .int _, _, _ | .float _, _, _ | .call .., _, _ | .op .., _, _
  | .comparison _, _, _ | .unary .., _, _ | .conditional .., _, _ | .other _, _, _ => by
    cases receiver <;> rfl

theorem targetsIn_names (receiver : Option String) : (es values : List Expression) →
    (targetsIn receiver es values).map Target.name = (leavesIn es).filterMap (boundName? receiver)
  | [], _ => rfl
  | e :: es, values => by
    rw [targetsIn, leavesIn, List.map_append, List.filterMap_append, targets_names receiver e,
      targetsIn_names receiver es]
end

theorem leavesIn_eq_flatMap (es : List Expression) : leavesIn es = es.flatMap leaves := by
  induction es with
  | nil => rfl
  | cons e es ih => rw [leavesIn, ih, List.flatMap_cons]

end Expression

theorem Assignment.bindings_names (a : Assignment) (receiver : Option String) :
    (a.bindings receiver).map Binding.name
      = (Expression.leavesIn a.targets).filterMap (Expression.boundName? receiver) := by
  rw [Assignment.bindings, Assignment.boundTargets, List.map_map, List.map_flatMap,
    Expression.leavesIn_eq_flatMap, List.filterMap_flatMap]
  refine congrArg a.targets.flatMap (funext fun e => ?_)
  exact Expression.targets_names receiver e a.value true

theorem Member.bindings_names (m : Member) : m.bindings.map Binding.name = m.attributeNames := by
  cases m with
  | «class» | enum => rfl
  | assignment a => exact a.bindings_names none
  | function scope head body =>
    rw [bindings, attributeNames, Assembly.receiver?]
    cases head.name == DocstringStyle.initializer with
    | false => rfl
    | true =>
      cases head.arguments with
      | nil => rfl
      | cons first more =>
        cases hself : first.isSelf with
        | false => simp [hself, Option.filter]
        | true =>
          simp only [List.head?_cons, Option.filter, hself, Option.map_some, if_true,
            List.map_flatMap]
          refine congrArg (bodyAssignments body).flatMap (funext fun a => ?_)
          exact a.bindings_names (some first.name)

/-- Bindings are fresh where their names occur first. -/
theorem freshBindings_names (seen : List String) (bs : List Binding) :
    (freshBindings seen bs).map Binding.name
      = ((bs.map Binding.name).filter fun n => !seen.contains n).eraseDups := by
  induction bs generalizing seen with
  | nil => rfl
  | cons b bs ih =>
    rw [freshBindings, List.map_cons, List.filter_cons]
    cases hseen : seen.contains b.name with
    | true => simpa using ih seen
    | false =>
      simp only [Bool.false_eq_true, if_false, Bool.not_false, if_true, List.map_cons, ih,
        List.eraseDups_cons, List.filter_filter]
      refine congrArg (fun l => b.name :: List.eraseDups l) (List.filter_congr fun n _ => ?_)
      rw [List.contains_cons, Bool.not_or]

theorem freshBindings_nil_names (bs : List Binding) :
    (freshBindings [] bs).map Binding.name = (bs.map Binding.name).eraseDups := by
  have hall : (bs.map Binding.name).filter (fun n => !([] : List String).contains n)
      = bs.map Binding.name := List.filter_eq_self.2 fun _ _ => rfl
  rw [freshBindings_names, hall]

/-! ## 5. Entries of classes and enums -/

namespace ClassFrame

variable (ctx : ModuleContext) (f : ClassFrame)

theorem absorb_attributeNames (m : Member) :
    (f.absorb ctx m).attributeNames
      = f.attributeNames ++ (freshBindings f.attributeNames m.bindings).map Binding.name := by
  cases m with
  | function _ head _ =>
    simp only [absorb, list]
    split <;> rfl
  | «class» | enum | assignment => rfl

/-- What a member adds to the lists of its class. -/
theorem absorb_outline (m : Member) :
    (f.absorb ctx m).row.outline = {
      id := f.row.id
      constructor? := m.initializerId?.or f.row.constructor?
      attributes := f.row.attributes
        ++ ((freshBindings f.attributeNames m.bindings).map Binding.name).map (Id.child f.row.id)
      methods := f.row.methods ++ m.methodId?.toList
      classes := f.row.classes ++ m.classId?.toList } := by
  cases m with
  | function _ head _ =>
    simp only [absorb, list, Member.initializerId?, Member.methodId?, Member.classId?]
    split <;> simp [ClassRow.outline, bind]
  | «class» | enum | assignment =>
    simp [ClassRow.outline, absorb, list, bind, Member.initializerId?, Member.methodId?,
      Member.classId?]

/-- The lists of a class after its members. -/
theorem foldl_absorb_outline (ms : List Member) :
    (ms.foldl (absorb ctx) f).row.outline = {
      id := f.row.id
      constructor? := (ms.filterMap Member.initializerId?).getLast?.or f.row.constructor?
      attributes := f.row.attributes
        ++ ((freshBindings f.attributeNames (ms.flatMap Member.bindings)).map Binding.name).map
          (Id.child f.row.id)
      methods := f.row.methods ++ ms.filterMap Member.methodId?
      classes := f.row.classes ++ ms.filterMap Member.classId? } := by
  induction ms generalizing f with
  | nil => simp [ClassRow.outline, freshBindings]
  | cons m ms ih =>
    have hm := absorb_outline ctx f m
    simp only [ClassRow.outline, ClassOutline.mk.injEq] at hm
    obtain ⟨hid, hconstructor, hattributes, hmethods, hclasses⟩ := hm
    rw [List.foldl_cons, ih, hid, hconstructor, hattributes, hmethods, hclasses,
      absorb_attributeNames, List.flatMap_cons, freshBindings_append]
    congr 1
    · cases h : m.initializerId? with
      | none => rw [List.filterMap_cons_none h, Option.none_or]
      | some id =>
        rw [List.filterMap_cons_some h, Option.some_or, List.getLast?_cons]
        cases (ms.filterMap Member.initializerId?).getLast? <;> rfl
    · rw [List.map_append, List.map_append, List.append_assoc]
    · cases h : m.methodId? with
      | none => rw [List.filterMap_cons_none h]; simp
      | some id => rw [List.filterMap_cons_some h]; simp
    · cases h : m.classId? with
      | none => rw [List.filterMap_cons_none h]; simp
      | some id => rw [List.filterMap_cons_some h]; simp

end ClassFrame

theorem ModuleContext.finishedClass_outline (ctx : ModuleContext) (scope : Scope)
    (head : ClassHead) (members : List Member) :
    some (ctx.finishedClass scope head members).outline
      = (Member.class scope head members).classOutline? := by
  have hstart : (ClassFrame.start ctx scope head).attributeNames = [] := rfl
  rw [finishedClass, ClassFrame.foldl_absorb_outline, hstart, freshBindings_nil_names,
    List.map_flatMap]
  simp only [Member.bindings_names]
  simp [ClassFrame.start, ModuleContext.classRow, Member.classOutline?]

theorem instanceNames_eq (body : List Assignment) :
    instanceNames body = (body.flatMap Assignment.plainNames).eraseDups := by
  rw [instanceNames, freshBindings_nil_names, List.map_flatMap]
  simp only [Assignment.bindings_names]
  rfl

theorem ModuleContext.functionRow_outline (ctx : ModuleContext) (scope : Scope)
    (head : FunctionHead) (body : List Statement) :
    some (ctx.functionRow (ctx.functionFrame scope head body)
        (ctx.parameters head (Id.child scope.id head.name) scope.owner)
        (ctx.results head body (Id.child scope.id head.name) scope.owner) scope.owner).outline
      = (Member.function scope head body).functionOutline? ctx := by
  simp only [FunctionRow.outline, functionRow, functionFrame, parameters, List.map_map,
    Member.functionOutline?]
  rfl

/-! ## 6. Rows by kind -/

/-- What `g` reads off the rows of a single member is what `h` says of it; attributes count for
nothing. -/
structure Reads {β : Type} (ctx : ModuleContext) (g : Entity → List β) (h : Member → List β) :
    Prop where
  ofAttribute : ∀ r, g (.attribute r) = []
  ofClass : ∀ scope head members,
    g (.class (ctx.finishedClass scope head members)) = h (.class scope head members)
  ofEnum : ∀ scope head body,
    (ctx.enumEntities scope head body).flatMap g = h (.enum scope head body)
  ofFunction : ∀ scope head body,
    (ctx.functionEntities scope head body).flatMap g = h (.function scope head body)
  ofAssignment : ∀ a, h (.assignment a) = []

namespace Member

variable {ctx : ModuleContext} {β : Type} {g : Entity → List β} {h : Member → List β}

theorem flatMap_entitiesIn (hg : ∀ r, g (.attribute r) = []) (f : ClassFrame) (ms : List Member) :
    (entitiesIn ctx f ms).flatMap g = ms.flatMap fun m => (m.entities ctx).flatMap g := by
  induction ms generalizing f with
  | nil => rfl
  | cons m ms ih =>
    rw [entitiesIn, List.flatMap_append, List.flatMap_append, ih, List.flatMap_map,
      List.flatMap_cons]
    simp [hg]

mutual
theorem flatMap_entities (hr : Reads ctx g h) :
    (m : Member) → (m.entities ctx).flatMap g = m.withBelow.flatMap h
  | .class scope head members => by
    rw [entities, withBelow, List.flatMap_append, List.flatMap_append,
      flatMap_entitiesIn hr.ofAttribute, flatMap_members hr members, List.flatMap_singleton,
      List.flatMap_singleton, hr.ofClass]
  | .enum scope head body => by rw [entities, withBelow, hr.ofEnum, List.flatMap_singleton]
  | .function scope head body => by
    rw [entities, withBelow, hr.ofFunction, List.flatMap_singleton]
  | .assignment a => by
    rw [entities, withBelow, List.flatMap_nil, List.flatMap_singleton, hr.ofAssignment]

theorem flatMap_members (hr : Reads ctx g h) : (ms : List Member) →
    ms.flatMap (fun m => (m.entities ctx).flatMap g) = (withBelowIn ms).flatMap h
  | [] => rfl
  | m :: ms => by
    rw [withBelowIn, List.flatMap_cons, List.flatMap_append, flatMap_entities hr m,
      flatMap_members hr ms]
end

end Member

/-- What is read off the rows of a file, its module apart, is what its kept members say. -/
theorem SourceFile.flatMap_entities {ctx : ModuleContext} {β : Type} {g : Entity → List β}
    {h : Member → List β} (f : SourceFile) (hr : Reads ctx g h) :
    (f.entities ctx).flatMap g = (Member.withBelowIn (f.members ctx)).flatMap h
      ++ g (.module (f.finishedRow (f.members ctx))) := by
  rw [entities, List.flatMap_append, List.flatMap_assoc, Member.flatMap_members hr,
    List.flatMap_singleton]

/-! ## 7. Attributes -/

/-- Listing a member leaves what further bindings add. -/
theorem ClassFrame.newAttributes_list (ctx : ModuleContext) (f : ClassFrame) (m : Member)
    (bs : List Binding) : (f.list ctx m).newAttributes ctx bs = f.newAttributes ctx bs := by
  cases m with
  | function _ head _ =>
    simp only [list]
    split <;> rfl
  | «class» | enum | assignment => rfl

/-- The attributes that all members of a class bind are those that it lists. -/
theorem ModuleContext.newAttributes_ids (ctx : ModuleContext) (scope : Scope) (head : ClassHead)
    (members : List Member) :
    ((ClassFrame.start ctx scope head).newAttributes ctx (members.flatMap Member.bindings)).map
        AttributeRow.id
      = (ctx.finishedClass scope head members).attributes := by
  have hlisted := congrArg ClassOutline.attributes
    (ClassFrame.foldl_absorb_outline ctx (.start ctx scope head) members)
  refine Eq.trans ?_ hlisted.symm
  rw [ClassFrame.newAttributes, List.map_map, List.map_map]
  rfl

namespace Member

variable {ctx : ModuleContext}

/-- The rows of a class are the attributes that its members bind and the rows of its members. -/
theorem mem_entitiesIn {f : ClassFrame} {ms : List Member} {e : Entity} :
    e ∈ entitiesIn ctx f ms ↔
      e ∈ (f.newAttributes ctx (ms.flatMap bindings)).map .attribute
        ∨ ∃ m ∈ ms, e ∈ m.entities ctx := by
  induction ms generalizing f with
  | nil => simp [entitiesIn, ClassFrame.newAttributes, freshBindings]
  | cons m ms ih =>
    simp only [entitiesIn, List.mem_append, ih, ClassFrame.absorb, ClassFrame.newAttributes_list,
      List.flatMap_cons, ClassFrame.newAttributes_append, List.map_append, List.mem_cons,
      exists_eq_or_imp]
    rw [or_assoc, or_assoc, or_left_comm (a := e ∈ m.entities ctx)]

/-- Whether an attribute with this id is among rows. -/
def HasAttribute (es : List Entity) (id : String) : Prop := ∃ r, .attribute r ∈ es ∧ r.id = id

theorem mem_attributeIds {es : List Entity} {id : String} :
    id ∈ (es.filterMap (IsRow.row? : Entity → Option AttributeRow)).map HasId.id
      ↔ HasAttribute es id := by
  rw [List.mem_map]
  constructor
  · rintro ⟨r, hr, hid⟩
    obtain ⟨e, he, hre⟩ := List.mem_filterMap.1 hr
    cases e <;> cases hre
    exact ⟨r, he, hid⟩
  · rintro ⟨r, hr, hid⟩
    exact ⟨r, List.mem_filterMap.2 ⟨_, hr, rfl⟩, hid⟩

mutual
/-- The attributes below a member are those that the classes below it list. -/
theorem hasAttribute_entities {id : String} : (m : Member) →
    (HasAttribute (m.entities ctx) id
        ↔ ∃ c ∈ m.withBelow.filterMap classOutline?, id ∈ c.attributes)
  | .class scope head members => by
    have hentry := ctx.finishedClass_outline scope head members
    have hown : HasAttribute (((ClassFrame.start ctx scope head).newAttributes ctx
        (members.flatMap bindings)).map .attribute) id
          ↔ id ∈ (ctx.finishedClass scope head members).attributes := by
      rw [← ctx.newAttributes_ids, List.mem_map]
      simp [HasAttribute]
    have hsplit : HasAttribute (entities ctx (.class scope head members)) id
        ↔ id ∈ (ctx.finishedClass scope head members).attributes
          ∨ ∃ m ∈ members, HasAttribute (m.entities ctx) id := by
      rw [← hown]
      simp only [HasAttribute, entities, List.mem_append, mem_entitiesIn, List.mem_singleton,
        reduceCtorEq, or_false, or_and_right, exists_or]
      refine or_congr_right ?_
      constructor
      · rintro ⟨r, ⟨m, hm, hr⟩, hid⟩
        exact ⟨m, hm, r, hr, hid⟩
      · rintro ⟨m, hm, r, hr, hid⟩
        exact ⟨r, ⟨m, hm, hr⟩, hid⟩
    rw [hsplit, hasAttribute_members members, withBelow, List.filterMap_append,
      List.filterMap_cons_some hentry.symm, List.filterMap_nil]
    simp only [List.mem_append, List.mem_singleton, or_and_right, exists_or, exists_eq_left]
    exact or_comm
  | .enum scope head body => by
    simp [HasAttribute, entities, withBelow, ModuleContext.enumEntities, classOutline?]
  | .function scope head body => by
    simp [HasAttribute, entities, withBelow, ModuleContext.functionEntities, classOutline?]
  | .assignment a => by simp [HasAttribute, entities, withBelow, classOutline?]

theorem hasAttribute_members {id : String} : (ms : List Member) →
    ((∃ m ∈ ms, HasAttribute (m.entities ctx) id)
      ↔ ∃ c ∈ (withBelowIn ms).filterMap classOutline?, id ∈ c.attributes)
  | [] => by simp [withBelowIn]
  | m :: ms => by
    simp only [List.mem_cons, hasAttribute_entities m, hasAttribute_members ms,
      withBelowIn, List.filterMap_append, List.mem_append, or_and_right, exists_or,
      exists_eq_left]
end

end Member

/-! ## 8. The walk arrives at the outline -/

section Reads

variable (ctx : ModuleContext)

@[simp] theorem flatMap_const_nil {α β : Type} (l : List α) :
    (l.flatMap fun _ => ([] : List β)) = [] :=
  List.flatMap_eq_nil_iff.2 fun _ _ => rfl

@[simp] theorem ModuleContext.functionFrame_id (scope : Scope) (head : FunctionHead)
    (body : List Statement) :
    (ctx.functionFrame scope head body).id = Id.child scope.id head.name := rfl

@[simp] theorem ModuleContext.parameter_id (function : FunctionHead) (id : String)
    (owner : Option ClassHead) (a : Argument) :
    (ctx.parameter function id owner a).id = Id.child id a.name := rfl

@[simp] theorem EnumFrame.start_id (scope : Scope) (head : ClassHead) :
    (EnumFrame.start ctx scope head).row.id = Id.child scope.id head.name := rfl

theorem reads_module : Reads ctx (fun e => ((IsRow.row? e).map ModuleRow.outline).toList)
    fun _ => [] where
  ofAttribute _ := rfl
  ofClass _ _ _ := rfl
  ofEnum _ _ _ := by simp [ModuleContext.enumEntities, IsRow.row?, List.flatMap_map]
  ofFunction _ _ _ := by simp [ModuleContext.functionEntities, IsRow.row?, List.flatMap_map]
  ofAssignment _ := rfl

theorem reads_class : Reads ctx (fun e => ((IsRow.row? e).map ClassRow.outline).toList)
    fun m => m.classOutline?.toList where
  ofAttribute _ := rfl
  ofClass scope head members :=
    congrArg Option.toList (ctx.finishedClass_outline scope head members)
  ofEnum _ _ _ := by
    simp [ModuleContext.enumEntities, IsRow.row?, Member.classOutline?, List.flatMap_map]
  ofFunction _ _ _ := by
    simp [ModuleContext.functionEntities, IsRow.row?, Member.classOutline?, List.flatMap_map]
  ofAssignment _ := rfl

theorem reads_function : Reads ctx (fun e => ((IsRow.row? e).map FunctionRow.outline).toList)
    fun m => (m.functionOutline? ctx).toList where
  ofAttribute _ := rfl
  ofClass _ _ _ := rfl
  ofEnum _ _ _ := by
    simp [ModuleContext.enumEntities, IsRow.row?, Member.functionOutline?, List.flatMap_map]
  ofFunction scope head body := by
    rw [← ctx.functionRow_outline]
    simp [ModuleContext.functionEntities, IsRow.row?, List.flatMap_map]
  ofAssignment _ := rfl

theorem reads_enum : Reads ctx (fun e => ((IsRow.row? e).map EnumRow.outline).toList)
    fun m => m.enumOutline?.toList where
  ofAttribute _ := rfl
  ofClass _ _ _ := rfl
  ofEnum _ _ _ := by
    simp [ModuleContext.enumEntities, IsRow.row?, Member.enumOutline?, EnumRow.outline,
      instanceNames_eq, List.flatMap_map]
  ofFunction _ _ _ := by
    simp [ModuleContext.functionEntities, IsRow.row?, Member.enumOutline?, List.flatMap_map]
  ofAssignment _ := rfl

theorem reads_parameter : Reads ctx (fun e => ((IsRow.row? e).map ParameterRow.id).toList)
    fun m => (m.functionOutline? ctx).toList.flatMap FunctionOutline.parameters where
  ofAttribute _ := rfl
  ofClass _ _ _ := rfl
  ofEnum _ _ _ := by
    simp [ModuleContext.enumEntities, IsRow.row?, Member.functionOutline?, List.flatMap_map]
  ofFunction _ _ _ := by
    simp [ModuleContext.functionEntities, IsRow.row?, Member.functionOutline?, List.flatMap_map,
      ModuleContext.parameters, ← List.map_eq_flatMap]
  ofAssignment _ := rfl

theorem reads_result : Reads ctx (fun e => ((IsRow.row? e).map ResultRow.id).toList)
    fun m => (m.functionOutline? ctx).toList.flatMap FunctionOutline.results where
  ofAttribute _ := rfl
  ofClass _ _ _ := rfl
  ofEnum _ _ _ := by
    simp [ModuleContext.enumEntities, IsRow.row?, Member.functionOutline?, List.flatMap_map]
  ofFunction _ _ _ := by
    simp [ModuleContext.functionEntities, IsRow.row?, Member.functionOutline?, List.flatMap_map,
      ← List.map_eq_flatMap]
  ofAssignment _ := rfl

theorem reads_enumInstance : Reads ctx (fun e => ((IsRow.row? e).map EnumInstanceRow.id).toList)
    fun m => m.enumOutline?.toList.flatMap EnumOutline.instances where
  ofAttribute _ := rfl
  ofClass _ _ _ := rfl
  ofEnum _ _ _ := by
    simp [ModuleContext.enumEntities, IsRow.row?, Member.enumOutline?, instanceNames_eq,
      List.flatMap_map, ← List.map_eq_flatMap]
  ofFunction _ _ _ := by
    simp [ModuleContext.functionEntities, IsRow.row?, Member.enumOutline?, List.flatMap_map]
  ofAssignment _ := rfl

end Reads

namespace Member

mutual
theorem enumIds_eq : (m : Member) →
    m.enumIds = (m.withBelow.filterMap enumOutline?).map EnumOutline.id
  | .class scope head members => by
    rw [enumIds, withBelow, List.filterMap_append, enumIdsIn_eq members]
    simp [enumOutline?]
  | .enum .. => rfl
  | .function .. => rfl
  | .assignment _ => rfl

theorem enumIdsIn_eq : (ms : List Member) →
    enumIdsIn ms = ((withBelowIn ms).filterMap enumOutline?).map EnumOutline.id
  | [] => rfl
  | m :: ms => by
    rw [enumIdsIn, withBelowIn, List.filterMap_append, List.map_append, enumIds_eq m,
      enumIdsIn_eq ms]
end

end Member

/-- Sets of the same names are equal. -/
theorem NameSet.ofList_congr {names names' : List String} (h : ∀ n, n ∈ names ↔ n ∈ names') :
    (Ascending.ofList names : NameSet) = Ascending.ofList names' :=
  Ascending.ext_mem fun n => by rw [NameSet.mem_ofList, NameSet.mem_ofList, h]

namespace SourceFile

variable (f : SourceFile) (ctx : ModuleContext)

/-- What keeps ids is read off a table of a file as it is read off the kept members. -/
theorem mapKey_table {ρ β : Type} [HasId ρ] [IsRow ρ] {key : β → Key} {out : ρ → β}
    {h : Member → List β} (hkey : ∀ r, key (out r) = rowKey r)
    (hr : Reads ctx (fun e => ((IsRow.row? e).map out).toList) h) :
    (IsRow.table (f.model ctx) : Table ρ).mapKey out hkey
      = Ascending.ofList ((Member.withBelowIn (f.members ctx)).flatMap h
        ++ ((IsRow.row? (.module (f.finishedRow (f.members ctx)))).map out).toList) := by
  rw [model, IsRow.table_foldl_add_empty, Ascending.mapKey_ofList, List.map_filterMap,
    List.filterMap_eq_flatMap_toList, f.flatMap_entities hr]

/-- The attributes of a file are those that its classes list. -/
theorem attributes_keys :
    (f.model ctx).attributes.keys = Ascending.ofList
      (((Member.withBelowIn (f.members ctx)).filterMap Member.classOutline?).flatMap
        ClassOutline.attributes) := by
  have hrows :
      (f.model ctx).attributes = Ascending.ofList ((f.entities ctx).filterMap IsRow.row?) :=
    IsRow.table_foldl_add_empty (ρ := AttributeRow) (f.entities ctx)
  rw [hrows, Table.keys_ofList]
  refine NameSet.ofList_congr fun id => ?_
  rw [Member.mem_attributeIds, List.mem_flatMap, ← Member.hasAttribute_members]
  simp only [Member.HasAttribute, entities, List.mem_append, List.mem_flatMap, List.mem_singleton,
    reduceCtorEq, or_false]
  constructor
  · rintro ⟨r, ⟨m, hm, hr⟩, hid⟩
    exact ⟨m, hm, r, hr, hid⟩
  · rintro ⟨m, hm, r, hr, hid⟩
    exact ⟨r, ⟨m, hm, hr⟩, hid⟩

theorem model_outline : (f.model ctx).outline = f.outline ctx := by
  simp only [Api.outline, outline, Outline.mk.injEq]
  refine ⟨?_, ?_, ?_, ?_, ?_, f.attributes_keys ctx, ?_, ?_⟩
  · refine (f.mapKey_table ctx _ (reads_module ctx)).trans ?_
    rw [flatMap_const_nil, List.nil_append, ← Member.enumIdsIn_eq]
    rfl
  · refine (f.mapKey_table ctx _ (reads_class ctx)).trans ?_
    simp [IsRow.row?, List.filterMap_eq_flatMap_toList]
  · refine (f.mapKey_table ctx _ (reads_function ctx)).trans ?_
    simp [IsRow.row?, List.filterMap_eq_flatMap_toList]
  · refine (f.mapKey_table ctx _ (reads_enum ctx)).trans ?_
    simp [IsRow.row?, List.filterMap_eq_flatMap_toList]
  · refine (f.mapKey_table ctx _ (reads_parameter ctx)).trans ?_
    simp [IsRow.row?, List.filterMap_eq_flatMap_toList, List.flatMap_assoc]
  · refine (f.mapKey_table ctx _ (reads_result ctx)).trans ?_
    simp [IsRow.row?, List.filterMap_eq_flatMap_toList, List.flatMap_assoc]
  · refine (f.mapKey_table ctx _ (reads_enumInstance ctx)).trans ?_
    simp [IsRow.row?, List.filterMap_eq_flatMap_toList, List.flatMap_assoc]

end SourceFile

/-- **The walk over a file arrives at its outline.**  The child lists and the ids of the model that
is built on the stack are those of the recursion over the kept members. -/
theorem assemble_outline (f : SourceFile) (index : PackageIndex) (style : DocstringProvider) :
    ∃ api, f.assemble index style = .ok api ∧ api.outline = f.outline (f.context index style) :=
  ⟨_, f.assemble_eq index style, f.model_outline _⟩

end ApiSurface
