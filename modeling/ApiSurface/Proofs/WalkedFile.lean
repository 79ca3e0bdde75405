import ApiSurface.Proofs.Members
/-!
# The walk over a file builds its model

The walk keeps an explicit stack of frames, a count of skipped declarations and the first error.
This module shows that it never errs and what it leaves behind.

The invariant says what the stack looks like wherever the walk may stand.  In a module or class it
is the classes around that place over the module (`Open`).  In a function or an enum there is one
more frame on top, and nothing but assignments has an effect (`Inside`).  A statement takes an open
stack to an open stack: it absorbs the members that the scope keeps of the statement, adds their
rows and claims their ids (`walkStatement_open`).  Hence the walk over a whole file ends with an
empty stack and the model of its members (`walkFile_eq`).
-/

namespace ApiSurface

/-! ## 1. Bindings in portions -/

/-- The targets of one assignment are fresh exactly when its bindings are. -/
theorem freshBindings_map (receiver : Option String) (a : Assignment) (seen : List String)
    (ts : List Target) :
    freshBindings seen (ts.map fun t => ⟨receiver, a, t⟩)
      = (freshTargets seen ts).map fun t => ⟨receiver, a, t⟩ := by
  induction ts generalizing seen with
  | nil => rfl
  | cons t ts ih =>
    simp only [List.map_cons, freshBindings, freshTargets, Binding.name, ih]
    split <;> rfl

/-- Only which names are seen matters, not in which order. -/
theorem freshBindings_congr {seen seen' : List String} (h : ∀ n, n ∈ seen ↔ n ∈ seen')
    (bs : List Binding) : freshBindings seen bs = freshBindings seen' bs := by
  induction bs generalizing seen seen' with
  | nil => rfl
  | cons b bs ih =>
    have hc : seen.contains b.name = seen'.contains b.name := by
      rw [Bool.eq_iff_iff, List.contains_iff_mem, List.contains_iff_mem]
      exact h _
    have hcons : ∀ n, n ∈ b.name :: seen ↔ n ∈ b.name :: seen' := by
      intro n
      rw [List.mem_cons, List.mem_cons, h n]
    simp only [freshBindings, hc, ih h, ih hcons]

theorem freshBindings_append (seen : List String) (bs cs : List Binding) :
    freshBindings seen (bs ++ cs) = freshBindings seen bs
      ++ freshBindings (seen ++ (freshBindings seen bs).map Binding.name) cs := by
  induction bs generalizing seen with
  | nil => simp [freshBindings]
  | cons b bs ih =>
    simp only [List.cons_append, freshBindings]
    split
    · exact ih seen
    · rw [ih, List.cons_append, List.map_cons]
      refine congrArg (fun l => b :: (freshBindings (b.name :: seen) bs ++ l)) ?_
      refine freshBindings_congr (fun n => ?_) cs
      simp only [List.mem_append, List.mem_cons]
      exact or_left_comm

/-- A class without what its members add to it. -/
def ClassRow.withoutMembers (c : ClassRow) : ClassRow :=
  { c with
    constructor? := none, constructorFullDocstring := "", attributes := [], methods := []
    classes := [] }

namespace ClassFrame

@[simp] theorem bind_nil (f : ClassFrame) : f.bind [] = f := by
  simp [bind, freshBindings]

theorem bind_append (f : ClassFrame) (bs cs : List Binding) :
    f.bind (bs ++ cs) = (f.bind bs).bind cs := by
  simp only [bind, freshBindings_append, List.map_append, List.append_assoc]

theorem newAttributes_append (ctx : ModuleContext) (f : ClassFrame) (bs cs : List Binding) :
    f.newAttributes ctx (bs ++ cs)
      = f.newAttributes ctx bs ++ (f.bind bs).newAttributes ctx cs := by
  simp only [newAttributes, bind, freshBindings_append, List.map_append]
  rfl

/-- Members change nothing in a class but what they add to it. -/
theorem absorb_withoutMembers (ctx : ModuleContext) (f : ClassFrame) (m : Member) :
    (f.absorb ctx m).row.withoutMembers = f.row.withoutMembers := by
  cases m with
  | function _ head _ =>
    simp only [absorb, list]
    split <;> rfl
  | «class» | enum | assignment => rfl

theorem foldl_absorb_withoutMembers (ctx : ModuleContext) (f : ClassFrame) (ms : List Member) :
    (ms.foldl (absorb ctx) f).row.withoutMembers = f.row.withoutMembers := by
  induction ms generalizing f with
  | nil => rfl
  | cons m ms ih => rw [List.foldl_cons, ih, absorb_withoutMembers]

theorem foldl_absorb_id (ctx : ModuleContext) (f : ClassFrame) (ms : List Member) :
    (ms.foldl (absorb ctx) f).row.id = f.row.id := by
  have hsame := congrArg ClassRow.id (f.foldl_absorb_withoutMembers ctx ms)
  exact hsame

/-- An assignment adds the attributes that its bindings add. -/
theorem addAttributes_eq (ctx : ModuleContext) (f : ClassFrame) (receiver : Option String)
    (a : Assignment) :
    Assembly.addAttributes ctx f receiver a
      = (f.bind (a.bindings receiver), f.newAttributes ctx (a.bindings receiver)) := by
  simp only [Assembly.addAttributes, ModuleContext.attributes, bind, newAttributes,
    Assignment.bindings, freshBindings_map, List.map_map]
  rfl

end ClassFrame

namespace EnumFrame

/-- An enum with the instances of further bindings. -/
def bind (e : EnumFrame) (bs : List Binding) : EnumFrame :=
  let new := (freshBindings e.instanceNames bs).map Binding.name
  { row := { e.row with instances := e.row.instances ++ new.map (Id.child e.row.id) }
    instanceNames := e.instanceNames ++ new }

/-- The instances that bindings add to an enum. -/
def newInstances (e : EnumFrame) (bs : List Binding) : List EnumInstanceRow :=
  (freshBindings e.instanceNames bs).map fun b => ⟨Id.child e.row.id b.name, b.name⟩

@[simp] theorem bind_nil (e : EnumFrame) : e.bind [] = e := by
  simp [bind, freshBindings]

theorem bind_append (e : EnumFrame) (bs cs : List Binding) :
    e.bind (bs ++ cs) = (e.bind bs).bind cs := by
  simp only [bind, freshBindings_append, List.map_append, List.append_assoc]

theorem newInstances_append (e : EnumFrame) (bs cs : List Binding) :
    e.newInstances (bs ++ cs) = e.newInstances bs ++ (e.bind bs).newInstances cs := by
  simp only [newInstances, bind, freshBindings_append, List.map_append]

theorem addInstances_eq (e : EnumFrame) (a : Assignment) :
    Assembly.addInstances e a = (e.bind (a.bindings none), e.newInstances (a.bindings none)) := by
  simp only [Assembly.addInstances, enumInstances, bind, newInstances, Assignment.bindings,
    freshBindings_map, List.map_map]
  rfl

end EnumFrame

/-! ## 2. Single nodes -/

namespace Visitor

variable {σ : Type} {v : Visitor σ} {node : Node} {children : σ → Walked σ} {s t u : σ}

theorem around_of_skip (h : v.visit node s = (.skip, t)) :
    v.around node children s = .ok (v.leave node t) := by
  rw [around, h]

theorem around_of_descend (h : v.visit node s = (.descend, t)) (hc : children t = .ok u) :
    v.around node children s = .ok (v.leave node u) := by
  simp only [around, h, hc]

/-- A node whose visit and leave do nothing is passed over. -/
theorem around_of_pass (h : v.visit node s = (.descend, s)) (hl : ∀ t, v.leave node t = t) :
    v.around node children s = children s := by
  simp only [around, h]
  cases children s with
  | error t => rfl
  | ok t => simp only [hl]

theorem andThen_of_ok {first second : σ → Walked σ} (h : first s = .ok t) :
    andThen first second s = second t := by
  rw [andThen, h]

end Visitor

namespace Assembly

open Visitor

variable {ctx : ModuleContext} {s : Assembly}

theorem around_statement (st : Statement) (children : Assembly → Walked Assembly)
    (h : s.error = none) : (visitor ctx).around (.statement st) children s = children s :=
  around_of_pass (by simp [visitor, flow, h]) fun _ => rfl

theorem around_block (b : Block) (children : Assembly → Walked Assembly) :
    (visitor ctx).around (.block b) children s = children s :=
  around_of_pass rfl fun _ => rfl

theorem around_guarded (body : List Statement) (handlers : List Block)
    (orelse finalBody : List Statement) (children : Assembly → Walked Assembly) :
    (visitor ctx).around (.guarded body handlers orelse finalBody) children s = children s :=
  around_of_pass rfl fun _ => rfl

/-- An assignment is pushed and at once taken from the stack again. -/
theorem leaf_assignment (a : Assignment) (h : s.error = none) :
    (visitor ctx).leaf (.assignment a) s = .ok (s.assign ctx a) := by
  have hv : (visitor ctx).visit (.assignment a) s = (.descend, s.push (.assignments a)) := by
    simp [visitor, visitAssignment, h]
  have hl : (visitor ctx).leave (.assignment a) (s.push (.assignments a)) = s.assign ctx a := by
    have he : (s.push (.assignments a)).error = none := h
    simp only [visitor, he, Option.isSome_none, Bool.false_eq_true, if_false]
    rfl
  rw [Visitor.leaf, around_of_descend hv rfl, hl]

theorem leave_classDef (head : ClassHead) (body : List Statement) (hs : s.skipped = 0)
    (he : s.error = none) : (visitor ctx).leave (.classDef head body) s = s.finishClass := by
  simp [visitor, leaveDeclared, hs, he]

theorem leave_funcDef (head : FunctionHead) (body : List Statement) (hs : s.skipped = 0)
    (he : s.error = none) : (visitor ctx).leave (.funcDef head body) s = s.finishFunction ctx := by
  simp [visitor, leaveDeclared, hs, he]

/-- A class without a claim is skipped, and leaves the state as it was. -/
theorem around_classDef_of_unclaimed {head : ClassHead} (body : List Statement)
    (children : Assembly → Walked Assembly) (h : s.claim? ctx head.name = none) :
    (visitor ctx).around (.classDef head body) children s = .ok s := by
  have hv : (visitor ctx).visit (.classDef head body) s
      = (.skip, { s with skipped := s.skipped + 1 }) := by
    simp only [visitor, visitClass, declare, h]
  rw [around_of_skip hv]
  simp [visitor, leaveDeclared]

theorem around_funcDef_of_unclaimed {head : FunctionHead} (body : List Statement)
    (children : Assembly → Walked Assembly) (h : s.claim? ctx head.name = none) :
    (visitor ctx).around (.funcDef head body) children s = .ok s := by
  have hv : (visitor ctx).visit (.funcDef head body) s
      = (.skip, { s with skipped := s.skipped + 1 }) := by
    simp only [visitor, visitFunction, declare, h]
  rw [around_of_skip hv]
  simp [visitor, leaveDeclared]

/-! ## 3. Inside functions and enums -/

/-- The walk stands in a function or an enum, and nothing has gone wrong. -/
structure Inside (s : Assembly) : Prop where
  error : s.error = none
  skipped : s.skipped = 0
  top : (∃ g rest, s.stack = .function g :: rest) ∨ ∃ e rest, s.stack = .enum e :: rest

/-- No class and no function finds a place there. -/
theorem Inside.claim?_eq_none (h : Inside s) (name : String) : s.claim? ctx name = none := by
  rcases h.top with ⟨g, rest, hs⟩ | ⟨e, rest, hs⟩ <;> simp [claim?, hs, scope?]

theorem Inside.assign (h : Inside s) (a : Assignment) : Inside (s.assign ctx a) := by
  rcases h.top with ⟨g, rest, hs⟩ | ⟨e, rest, hs⟩
  · cases rest with
    | nil => simp only [Assembly.assign, hs]; exact h
    | cons below rest =>
      cases below with
      | «class» f =>
        simp only [Assembly.assign, hs]
        split
        · exact ⟨h.error, h.skipped, .inl ⟨_, _, rfl⟩⟩
        · exact h
      | module | function | enum | assignments => simp only [Assembly.assign, hs]; exact h
  · simp only [Assembly.assign, hs]
    exact ⟨h.error, h.skipped, .inr ⟨_, _, rfl⟩⟩

theorem Inside.foldl_assign (h : Inside s) (as : List Assignment) :
    Inside (as.foldl (Assembly.assign ctx) s) := by
  induction as generalizing s with
  | nil => exact h
  | cons a as ih => exact ih (h.assign a)

mutual
/-- Inside a function or enum a statement has the effect of its assignments, in order. -/
theorem walkStatement_inside : (st : Statement) → (s : Assembly) → Inside s →
    (visitor ctx).walkStatement st s
      = .ok ((assignmentsOf st.declarations).foldl (assign ctx) s)
  | .classDef head body, s, h => by
    rw [Visitor.walkStatement, around_statement _ _ h.error,
      around_classDef_of_unclaimed _ _ (h.claim?_eq_none _)]
    rfl
  | .funcDef head body, s, h => by
    rw [Visitor.walkStatement, around_statement _ _ h.error,
      around_funcDef_of_unclaimed _ _ (h.claim?_eq_none _)]
    rfl
  | .assignment a, s, h => by
    rw [Visitor.walkStatement, around_statement _ _ h.error, leaf_assignment a h.error]
    rfl
  | .importNames _, s, h => by rw [Visitor.walkStatement, around_statement _ _ h.error]; rfl
  | .importFrom _, s, h => by rw [Visitor.walkStatement, around_statement _ _ h.error]; rfl
  | .importAll _, s, h => by rw [Visitor.walkStatement, around_statement _ _ h.error]; rfl
  | .returned _, s, h => by rw [Visitor.walkStatement, around_statement _ _ h.error]; rfl
  | .block kind b, s, h => by
    rw [Visitor.walkStatement, around_statement _ _ h.error, walkBlock_inside b s h]
    rfl
  | .guarded body handlers orelse finalBody, s, h => by
    rw [Visitor.walkStatement, around_statement _ _ h.error, around_guarded,
      andThen_of_ok (walkBody_inside body s h),
      andThen_of_ok (walkBlocks_inside handlers _ (h.foldl_assign _)),
      andThen_of_ok (walkBody_inside orelse _ ((h.foldl_assign _).foldl_assign _)),
      walkBody_inside finalBody _ (((h.foldl_assign _).foldl_assign _).foldl_assign _)]
    simp only [Statement.declarations, assignmentsOf, List.filterMap_append, List.foldl_append]
  | .expression _, s, h => by
    rw [Visitor.walkStatement, Visitor.leaf, around_statement _ _ h.error]
    rfl
  | .pass, s, h => by rw [Visitor.walkStatement, Visitor.leaf, around_statement _ _ h.error]; rfl
  | .other, s, h => by rw [Visitor.walkStatement, Visitor.leaf, around_statement _ _ h.error]; rfl

theorem walkBody_inside : (body : List Statement) → (s : Assembly) → Inside s →
    (visitor ctx).walkBody body s
      = .ok ((assignmentsOf (Statement.declarationsIn body)).foldl (assign ctx) s)
  | [], s, _ => rfl
  | st :: more, s, h => by
    rw [Visitor.walkBody, andThen_of_ok (walkStatement_inside st s h),
      walkBody_inside more _ (h.foldl_assign _)]
    simp only [Statement.declarationsIn, assignmentsOf, List.filterMap_append, List.foldl_append]

theorem walkBlock_inside : (b : Block) → (s : Assembly) → Inside s →
    (visitor ctx).walkBlock b s
      = .ok ((assignmentsOf (Statement.blockDeclarations b)).foldl (assign ctx) s)
  | .mk body orelse, s, h => by
    rw [Visitor.walkBlock, around_block, andThen_of_ok (walkBody_inside body s h),
      walkBody_inside orelse _ (h.foldl_assign _)]
    simp only [Statement.blockDeclarations, assignmentsOf, List.filterMap_append,
      List.foldl_append]

theorem walkBlocks_inside : (bs : List Block) → (s : Assembly) → Inside s →
    (visitor ctx).walkBlocks bs s
      = .ok ((assignmentsOf (Statement.handlerDeclarations bs)).foldl (assign ctx) s)
  | [], s, _ => rfl
  | b :: more, s, h => by
    rw [Visitor.walkBlocks, andThen_of_ok (walkBlock_inside b s h),
      walkBlocks_inside more _ (h.foldl_assign _)]
    simp only [Statement.handlerDeclarations, assignmentsOf, List.filterMap_append,
      List.foldl_append]
end

end Assembly

/-! ## 4. Open modules and classes -/

/-- A module row after one more member of the module. -/
def ModuleRow.absorb (row : ModuleRow) (m : Member) : ModuleRow :=
  { row with
    classes := row.classes ++ m.classId?.toList
    functions := row.functions ++ m.functionId?.toList
    enums := row.enums ++ m.enumIds }

/-- A module in progress: its row, the classes around the place where the walk stands, innermost
first, and the model so far. -/
structure Open where
  row : ModuleRow
  classes : List ClassFrame
  api : Api

namespace Open

def stack (o : Open) : List Frame := o.classes.map .class ++ [.module o.row]

/-- The state of a walk that stands there, with nothing wrong and nothing skipped. -/
def state (o : Open) (claimed : List String) : Assembly :=
  { stack := o.stack, api := o.api, claimed, skipped := 0, error := none }

/-- The innermost scope. -/
def scope (ctx : ModuleContext) (o : Open) : Scope :=
  match o.classes with
  | [] => ⟨o.row.id, .module ctx.module, none⟩
  | f :: _ => ⟨f.row.id, .class f.row.isPublic, some f.head⟩

/-- The innermost class with the attributes of further bindings. -/
def bind (ctx : ModuleContext) (o : Open) (bs : List Binding) : Open :=
  match o.classes with
  | [] => o
  | f :: fs =>
    { o with
      classes := f.bind bs :: fs
      api := (f.newAttributes ctx bs).foldl Api.addAttribute o.api }

/-- The innermost scope with one more member in its lists. -/
def list (ctx : ModuleContext) (o : Open) (m : Member) : Open :=
  match o.classes with
  | [] => { o with row := o.row.absorb m, api := (m.entities ctx).foldl Api.add o.api }
  | f :: fs =>
    { row := { o.row with enums := o.row.enums ++ m.enumIds }
      classes := f.list ctx m :: fs
      api := (m.entities ctx).foldl Api.add o.api }

/-- The module after one more member of the innermost scope. -/
def absorb (ctx : ModuleContext) (o : Open) (m : Member) : Open :=
  (o.bind ctx m.bindings).list ctx m

theorem foldl_addAttribute (rows : List AttributeRow) (api : Api) :
    (rows.map Entity.attribute).foldl Api.add api = rows.foldl Api.addAttribute api := by
  rw [List.foldl_map]
  rfl

theorem bind_append (ctx : ModuleContext) (o : Open) (bs cs : List Binding) :
    o.bind ctx (bs ++ cs) = (o.bind ctx bs).bind ctx cs := by
  rcases o with ⟨row, _ | ⟨f, fs⟩, api⟩
  · rfl
  · simp only [bind, ClassFrame.bind_append, ClassFrame.newAttributes_append, List.foldl_append]

@[simp] theorem bind_nil (ctx : ModuleContext) (o : Open) : o.bind ctx [] = o := by
  rcases o with ⟨row, _ | ⟨f, fs⟩, api⟩
  · rfl
  · simp only [bind, ClassFrame.bind_nil]
    rfl

@[simp] theorem scope_bind (ctx : ModuleContext) (o : Open) (bs : List Binding) :
    (o.bind ctx bs).scope ctx = o.scope ctx := by
  rcases o with ⟨row, _ | ⟨f, fs⟩, api⟩ <;> rfl

@[simp] theorem scope_list (ctx : ModuleContext) (o : Open) (m : Member) :
    (o.list ctx m).scope ctx = o.scope ctx := by
  rcases o with ⟨row, _ | ⟨f, fs⟩, api⟩
  · rfl
  · cases m with
    | function _ head _ =>
      simp only [list, ClassFrame.list, scope]
      split <;> rfl
    | «class» | enum | assignment => rfl

@[simp] theorem scope_absorb (ctx : ModuleContext) (o : Open) (m : Member) :
    (o.absorb ctx m).scope ctx = o.scope ctx := by
  rw [absorb, scope_list, scope_bind]

@[simp] theorem scope_foldl_absorb (ctx : ModuleContext) (o : Open) (ms : List Member) :
    (ms.foldl (absorb ctx) o).scope ctx = o.scope ctx := by
  induction ms generalizing o with
  | nil => rfl
  | cons m ms ih => rw [List.foldl_cons, ih, scope_absorb]

/-- What the members of a class make of the class, the module row and the model. -/
theorem foldl_absorb_class (ctx : ModuleContext) (ms : List Member) (row : ModuleRow)
    (f : ClassFrame) (fs : List ClassFrame) (api : Api) :
    ms.foldl (absorb ctx) ⟨row, f :: fs, api⟩
      = ⟨{ row with enums := row.enums ++ Member.enumIdsIn ms },
          ms.foldl (ClassFrame.absorb ctx) f :: fs,
          (Member.entitiesIn ctx f ms).foldl Api.add api⟩ := by
  induction ms generalizing row f api with
  | nil => simp [Member.enumIdsIn, Member.entitiesIn]
  | cons m ms ih =>
    have hstep : absorb ctx ⟨row, f :: fs, api⟩ m
        = ⟨{ row with enums := row.enums ++ m.enumIds }, f.absorb ctx m :: fs,
            ((f.newAttributes ctx m.bindings).map Entity.attribute ++ m.entities ctx).foldl
              Api.add api⟩ := by
      simp only [absorb, bind, list, List.foldl_append, foldl_addAttribute]
      rfl
    rw [List.foldl_cons, hstep, ih]
    simp only [Member.enumIdsIn, Member.entitiesIn, List.foldl_cons, List.foldl_append,
      List.append_assoc]

/-- What the members of a module make of it. -/
theorem foldl_absorb_module (ctx : ModuleContext) (ms : List Member) (row : ModuleRow) (api : Api) :
    ms.foldl (absorb ctx) ⟨row, [], api⟩
      = ⟨ms.foldl ModuleRow.absorb row, [],
        (ms.flatMap (Member.entities ctx)).foldl Api.add api⟩ := by
  induction ms generalizing row api with
  | nil => rfl
  | cons m ms ih =>
    rw [List.foldl_cons, show absorb ctx ⟨row, [], api⟩ m
      = ⟨row.absorb m, [], (m.entities ctx).foldl Api.add api⟩ from rfl, ih, List.flatMap_cons,
      List.foldl_append, List.foldl_cons]

end Open

/-! ## 5. What one node does to an open module -/

namespace Open

open Assembly Visitor

variable {ctx : ModuleContext} (o : Open) (claimed : List String)

theorem claim?_state (name : String) :
    (o.state claimed).claim? ctx name =
      if claimed.contains (Id.child (o.scope ctx).id name) then none
      else some (Id.child (o.scope ctx).id name, (o.scope ctx).place) := by
  rcases o with ⟨row, _ | ⟨f, fs⟩, api⟩ <;> rfl

/-- An assignment binds attributes of the class that it stands in. -/
theorem assign_state (a : Assignment) :
    (o.state claimed).assign ctx a = (o.absorb ctx (.assignment a)).state claimed := by
  rcases o with ⟨row, _ | ⟨f, fs⟩, api⟩
  · simp [assign, state, stack, absorb, bind, list, ModuleRow.absorb, Member.classId?,
      Member.functionId?, Member.enumIds, Member.entities]
  · simp [assign, state, stack, absorb, bind, list, ClassFrame.list, Member.bindings,
      Member.enumIds, Member.entities, ClassFrame.addAttributes_eq]

/-- The assignments in a function bind what the function does as a member. -/
theorem foldl_assign_function (scope : Scope) (head : FunctionHead) (body : List Statement)
    (g : FunctionFrame) (hg : g.head = head) :
    (bodyAssignments body).foldl (assign ctx) ((o.state claimed).push (.function g))
      = ((o.bind ctx (Member.function scope head body).bindings).state claimed).push
          (.function g) := by
  simp only [Member.bindings]
  generalize bodyAssignments body = as
  cases hr : receiver? head with
  | none =>
    -- Nothing is bound, so every assignment leaves the state as it is.
    induction as with
    | nil => simp
    | cons a as ih =>
      have hstep : ((o.state claimed).push (.function g)).assign ctx a
          = (o.state claimed).push (.function g) := by
        rcases o with ⟨row, _ | ⟨f, fs⟩, api⟩ <;> simp [assign, push, state, stack, hg, hr]
      rw [List.foldl_cons, hstep, ih]
  | some receiver =>
    induction as generalizing o with
    | nil => simp
    | cons a as ih =>
      have hstep : ((o.state claimed).push (.function g)).assign ctx a
          = ((o.bind ctx (a.bindings (some receiver))).state claimed).push (.function g) := by
        rcases o with ⟨row, _ | ⟨f, fs⟩, api⟩
        · simp [assign, push, state, stack, bind]
        · simp [assign, push, state, stack, bind, hg, hr, ClassFrame.addAttributes_eq]
      rw [List.foldl_cons, hstep, ih, ← bind_append]
      simp

/-- The assignments in an enum bind its instances. -/
theorem foldl_assign_enum (e : EnumFrame) (as : List Assignment) :
    as.foldl (assign ctx) ((o.state claimed).push (.enum e))
      = (state { o with
            api := (e.newInstances (as.flatMap fun a => a.bindings none)).foldl
              Api.addEnumInstance o.api } claimed).push
          (.enum (e.bind (as.flatMap fun a => a.bindings none))) := by
  induction as generalizing o e with
  | nil => simp [EnumFrame.newInstances, freshBindings]
  | cons a as ih =>
    have hstep : ((o.state claimed).push (.enum e)).assign ctx a
        = (state { o with
              api := (e.newInstances (a.bindings none)).foldl Api.addEnumInstance o.api }
            claimed).push (.enum (e.bind (a.bindings none))) := by
      simp only [assign, push, EnumFrame.addInstances_eq]
      rfl
    rw [List.foldl_cons, hstep, ih, List.flatMap_cons, EnumFrame.bind_append,
      EnumFrame.newInstances_append, List.foldl_append]

/-! ## 6. Leaving functions, enums and classes -/

theorem foldl_functionEntities (scope : Scope) (head : FunctionHead) (body : List Statement)
    (api : Api) :
    (ctx.functionEntities scope head body).foldl Api.add api =
      let f := ctx.functionFrame scope head body
      let parameters := ctx.parameters head f.id scope.owner
      let results := ctx.results head body f.id scope.owner
      (results.foldl Api.addResult (parameters.foldl Api.addParameter api)).addFunction
        (ctx.functionRow f parameters results scope.owner) := by
  simp only [ModuleContext.functionEntities, List.foldl_append, List.foldl_map]
  rfl

theorem foldl_enumEntities (scope : Scope) (head : ClassHead) (body : List Assignment) (api : Api) :
    (ctx.enumEntities scope head body).foldl Api.add api =
      let bs := body.flatMap fun a => a.bindings none
      (((EnumFrame.start ctx scope head).newInstances bs).foldl Api.addEnumInstance api).addEnum
        ((EnumFrame.start ctx scope head).bind bs).row := by
  simp only [ModuleContext.enumEntities, instanceNames, EnumFrame.newInstances, EnumFrame.bind,
    List.foldl_append, List.foldl_map, List.map_map]
  rfl

theorem list_api (m : Member) : (o.list ctx m).api = (m.entities ctx).foldl Api.add o.api := by
  rcases o with ⟨row, _ | ⟨f, fs⟩, api⟩ <;> rfl

theorem owner?_stack (ctx : ModuleContext) : owner? o.stack = (o.scope ctx).owner := by
  rcases o with ⟨row, _ | ⟨f, fs⟩, api⟩ <;> rfl

theorem listFunction_stack (head : FunctionHead) (body : List Statement)
    (parameters : List ParameterRow) (results : List ResultRow) (owner : Option ClassHead) :
    listFunction (ctx.functionRow (ctx.functionFrame (o.scope ctx) head body) parameters results
        owner) o.stack
      = .ok (o.list ctx (.function (o.scope ctx) head body)).stack := by
  rcases o with ⟨row, _ | ⟨f, fs⟩, api⟩
  · simp only [list, ModuleRow.absorb, Member.classId?, Member.functionId?, Member.enumIds,
      Option.toList_none, Option.toList_some, List.append_nil]
    rfl
  · by_cases h : head.name == DocstringStyle.initializer <;>
      simp [stack, listFunction, list, ClassFrame.list, ModuleContext.functionRow,
        ModuleContext.functionFrame, Member.enumIds, h]

/-- Leaving a function lists it with the scope around it. -/
theorem finishFunction_state (head : FunctionHead) (body : List Statement) {scope : Scope}
    (h : o.scope ctx = scope) :
    finishFunction ctx ((o.state claimed).push (.function (ctx.functionFrame scope head body)))
      = (o.list ctx (.function scope head body)).state claimed := by
  subst h
  have hstack : (o.state claimed).stack = o.stack := rfl
  simp only [finishFunction, push, hstack, owner?_stack o ctx]
  rw [show (ctx.functionFrame (o.scope ctx) head body).head = head from rfl,
    show (ctx.functionFrame (o.scope ctx) head body).body = body from rfl, listFunction_stack]
  simp only [settle, state, list_api, Member.entities, foldl_functionEntities]

/-- An enum is listed by the module at the bottom. -/
theorem listEnum_concat (id : String) (upper : List Frame) (row : ModuleRow) :
    listEnum id (upper ++ [.module row])
      = .ok (upper ++ [.module { row with enums := row.enums ++ [id] }]) := by
  simp only [listEnum, List.getLast?_concat, List.dropLast_concat]

theorem listEnum_stack (ctx : ModuleContext) (scope : Scope) (head : ClassHead)
    (body : List Assignment) :
    listEnum (Id.child scope.id head.name) o.stack
      = .ok (o.list ctx (.enum scope head body)).stack := by
  rw [stack, listEnum_concat]
  rcases o with ⟨row, _ | ⟨f, fs⟩, api⟩
  · simp [stack, list, ModuleRow.absorb, Member.classId?, Member.functionId?, Member.enumIds]
  · rfl

theorem listClass_stack (ctx : ModuleContext) (scope : Scope) (head : ClassHead)
    (members : List Member) :
    listClass (Id.child scope.id head.name)
        (stack { o with row := { o.row with enums := o.row.enums ++ Member.enumIdsIn members } })
      = .ok (o.list ctx (.class scope head members)).stack := by
  rcases o with ⟨row, _ | ⟨f, fs⟩, api⟩
  · simp [stack, listClass, list, ModuleRow.absorb, Member.classId?, Member.functionId?,
      Member.enumIds]
  · simp [stack, listClass, list, ClassFrame.list, Member.enumIds]

theorem finishClass_of_enum {e : EnumFrame} {stack : List Frame}
    (h : listEnum e.row.id o.stack = .ok stack) :
    finishClass ((o.state claimed).push (.enum e))
      = { stack, api := o.api.addEnum e.row, claimed } := by
  simp only [finishClass, push, state, settle, h]

theorem finishClass_of_class {f : ClassFrame} {stack : List Frame}
    (h : listClass f.row.id o.stack = .ok stack) :
    finishClass (state { o with classes := f :: o.classes } claimed)
      = { stack, api := o.api.addClass f.row, claimed } := by
  have hstack : Open.stack { o with classes := f :: o.classes } = .class f :: o.stack := rfl
  simp only [finishClass, state, settle, hstack, h]

/-- Leaving an enum lists it with the module. -/
theorem finishClass_enum (head : ClassHead) (body : List Assignment) :
    finishClass (body.foldl (assign ctx)
        ((o.state claimed).push (.enum (.start ctx (o.scope ctx) head))))
      = (o.list ctx (.enum (o.scope ctx) head body)).state claimed := by
  rw [foldl_assign_enum,
    finishClass_of_enum _ _ (listEnum_stack o ctx (o.scope ctx) head body), state,
    list_api, Member.entities, foldl_enumEntities]

/-- Leaving a class lists it with the scope around it. -/
theorem finishClass_class (head : ClassHead) (members : List Member) :
    finishClass (state (members.foldl (absorb ctx)
        { o with classes := .start ctx (o.scope ctx) head :: o.classes }) claimed)
      = (o.list ctx (.class (o.scope ctx) head members)).state claimed := by
  have hid : (members.foldl (ClassFrame.absorb ctx) (.start ctx (o.scope ctx) head)).row.id
      = Id.child (o.scope ctx).id head.name := ClassFrame.foldl_absorb_id _ _ _
  have hlist := listClass_stack o ctx (o.scope ctx) head members
  rw [← hid] at hlist
  rw [foldl_absorb_class]
  refine (finishClass_of_class
    ⟨{ o.row with enums := o.row.enums ++ Member.enumIdsIn members }, o.classes,
      (Member.entitiesIn ctx (.start ctx (o.scope ctx) head) members).foldl Api.add o.api⟩
    claimed hlist).trans ?_
  simp only [state, list_api, Member.entities, List.foldl_append]
  rfl

/-! ## 7. Statements -/

/-- A function that is not claimed yet becomes a member of the scope. -/
theorem around_funcDef_state {head : FunctionHead} (body : List Statement)
    (h : claimed.contains (Id.child (o.scope ctx).id head.name) = false) :
    (visitor ctx).around (.funcDef head body) ((visitor ctx).walkBody body) (o.state claimed)
      = .ok ((o.absorb ctx (.function (o.scope ctx) head body)).state
          (Id.child (o.scope ctx).id head.name :: claimed)) := by
  have hvisit : (visitor ctx).visit (.funcDef head body) (o.state claimed)
      = (.descend, (o.state (Id.child (o.scope ctx).id head.name :: claimed)).push
          (.function (ctx.functionFrame (o.scope ctx) head body))) := by
    simp only [visitor, visitFunction, declare, claim?_state, h]
    rfl
  have hwalk : (visitor ctx).walkBody body _ = .ok _ :=
    walkBody_inside body ((o.state (Id.child (o.scope ctx).id head.name :: claimed)).push
      (.function (ctx.functionFrame (o.scope ctx) head body))) ⟨rfl, rfl, .inl ⟨_, _, rfl⟩⟩
  rw [← bodyAssignments, foldl_assign_function _ _ (o.scope ctx) head body _ rfl] at hwalk
  rw [around_of_descend hvisit hwalk, leave_funcDef head body rfl rfl,
    finishFunction_state _ _ head body (scope_bind ctx o _), absorb]

/-- An enum that is not claimed yet becomes a member of the scope, with its assignments. -/
theorem around_enum_state {head : ClassHead} (body : List Statement)
    (h : claimed.contains (Id.child (o.scope ctx).id head.name) = false)
    (he : head.isEnum = true) :
    (visitor ctx).around (.classDef head body) ((visitor ctx).walkBody body) (o.state claimed)
      = .ok ((o.absorb ctx (.enum (o.scope ctx) head (bodyAssignments body))).state
          (Id.child (o.scope ctx).id head.name :: claimed)) := by
  have hvisit : (visitor ctx).visit (.classDef head body) (o.state claimed)
      = (.descend, (o.state (Id.child (o.scope ctx).id head.name :: claimed)).push
          (.enum (.start ctx (o.scope ctx) head))) := by
    simp only [visitor, visitClass, declare, claim?_state, h, ModuleContext.classFrame, he]
    rfl
  have hinside : Inside ((o.state (Id.child (o.scope ctx).id head.name :: claimed)).push
      (.enum (.start ctx (o.scope ctx) head))) := ⟨rfl, rfl, .inr ⟨_, _, rfl⟩⟩
  have hwalk : (visitor ctx).walkBody body _ = .ok ((bodyAssignments body).foldl (assign ctx) _) :=
    walkBody_inside body _ hinside
  have hafter : Inside ((bodyAssignments body).foldl (assign ctx) _) := hinside.foldl_assign _
  rw [around_of_descend hvisit hwalk, leave_classDef head body hafter.skipped hafter.error, absorb,
    Member.bindings, bind_nil, finishClass_enum]

/-- Any other class that is not claimed yet is left with the members that its body gives it. -/
theorem around_class_state {head : ClassHead} {body : List Statement} {members : List Member}
    {after : List String} (h : claimed.contains (Id.child (o.scope ctx).id head.name) = false)
    (he : head.isEnum = false)
    (hbody : (visitor ctx).walkBody body
        (state { o with classes := .start ctx (o.scope ctx) head :: o.classes }
          (Id.child (o.scope ctx).id head.name :: claimed))
      = .ok (state (members.foldl (absorb ctx)
          { o with classes := .start ctx (o.scope ctx) head :: o.classes }) after)) :
    (visitor ctx).around (.classDef head body) ((visitor ctx).walkBody body) (o.state claimed)
      = .ok ((o.absorb ctx (.class (o.scope ctx) head members)).state after) := by
  have hvisit : (visitor ctx).visit (.classDef head body) (o.state claimed)
      = (.descend, state { o with classes := .start ctx (o.scope ctx) head :: o.classes }
          (Id.child (o.scope ctx).id head.name :: claimed)) := by
    simp only [visitor, visitClass, declare, claim?_state, h, ModuleContext.classFrame, he]
    rfl
  rw [around_of_descend hvisit hbody, leave_classDef head body rfl rfl, absorb, Member.bindings,
    bind_nil, finishClass_class]

end Open

namespace ModuleContext

theorem keepAll_append (ctx : ModuleContext) (scope : Scope) (ds es : List Declaration)
    (claimed : List String) :
    ctx.keepAll scope (ds ++ es) claimed =
      ((ctx.keepAll scope ds claimed).1
          ++ (ctx.keepAll scope es (ctx.keepAll scope ds claimed).2).1,
        (ctx.keepAll scope es (ctx.keepAll scope ds claimed).2).2) := by
  induction ds generalizing claimed with
  | nil => simp [keepAll]
  | cons d ds ih => simp [keepAll, ih]

theorem keepAll_singleton (ctx : ModuleContext) (scope : Scope) (d : Declaration)
    (claimed : List String) : ctx.keepAll scope [d] claimed = ctx.keep scope d claimed := by
  simp [keepAll]

end ModuleContext

namespace Open

open Assembly Visitor

variable {ctx : ModuleContext}

/-- The state after the declarations of the innermost scope. -/
def after (ctx : ModuleContext) (o : Open) (claimed : List String) (ds : List Declaration) :
    Assembly :=
  state ((ctx.keepAll (o.scope ctx) ds claimed).1.foldl (absorb ctx) o)
    (ctx.keepAll (o.scope ctx) ds claimed).2

/-- Two walks one after the other see their declarations one after the other. -/
theorem andThen_after {o : Open} {claimed : List String} {ds es : List Declaration}
    {first second : Assembly → Walked Assembly}
    (hfirst : first (o.state claimed) = .ok (o.after ctx claimed ds))
    (hsecond : ∀ (o : Open) (claimed : List String),
      second (o.state claimed) = .ok (o.after ctx claimed es)) :
    andThen first second (o.state claimed) = .ok (o.after ctx claimed (ds ++ es)) := by
  rw [andThen_of_ok hfirst, after, hsecond, after, after, scope_foldl_absorb,
    ModuleContext.keepAll_append, List.foldl_append]

/-- A class definition, given what its body does in its own scope. -/
theorem around_classDef_state (head : ClassHead) {body : List Statement}
    (hbody : ∀ (o : Open) (claimed : List String), (visitor ctx).walkBody body (o.state claimed)
      = .ok (o.after ctx claimed (Statement.declarationsIn body)))
    (o : Open) (claimed : List String) :
    (visitor ctx).around (.classDef head body) ((visitor ctx).walkBody body) (o.state claimed)
      = .ok (o.after ctx claimed [.class head (Statement.declarationsIn body)]) := by
  rw [after, ModuleContext.keepAll_singleton, ModuleContext.keep]
  cases h : claimed.contains (Id.child (o.scope ctx).id head.name) with
  | true =>
    have hnone : (o.state claimed).claim? ctx head.name = none := by rw [claim?_state, if_pos h]
    rw [around_classDef_of_unclaimed body _ hnone]
    rfl
  | false =>
    cases he : head.isEnum with
    | true =>
      rw [around_enum_state o claimed body h he]
      rfl
    | false =>
      rw [around_class_state o claimed h he (hbody _ _)]
      rfl

theorem around_funcDef_after (head : FunctionHead) (body : List Statement) (o : Open)
    (claimed : List String) :
    (visitor ctx).around (.funcDef head body) ((visitor ctx).walkBody body) (o.state claimed)
      = .ok (o.after ctx claimed [.function head body]) := by
  rw [after, ModuleContext.keepAll_singleton, ModuleContext.keep]
  cases h : claimed.contains (Id.child (o.scope ctx).id head.name) with
  | true =>
    have hnone : (o.state claimed).claim? ctx head.name = none := by rw [claim?_state, if_pos h]
    rw [around_funcDef_of_unclaimed body _ hnone]
    rfl
  | false =>
    rw [around_funcDef_state o claimed body h]
    rfl

mutual
/-- **One statement.**  From an open module to an open module: the innermost scope absorbs what it
keeps of the statement.  The induction is on the tree; a class is the case that opens a scope. -/
theorem walkStatement_open : (st : Statement) → (o : Open) → (claimed : List String) →
    (visitor ctx).walkStatement st (o.state claimed) = .ok (o.after ctx claimed st.declarations)
  | .classDef head body, o, claimed => by
    rw [Visitor.walkStatement, around_statement _ _ rfl,
      around_classDef_state head (walkBody_open body)]
    rfl
  | .funcDef head body, o, claimed => by
    rw [Visitor.walkStatement, around_statement _ _ rfl, around_funcDef_after]
    rfl
  | .assignment a, o, claimed => by
    rw [Visitor.walkStatement, around_statement _ _ rfl, leaf_assignment a rfl, assign_state]
    rfl
  | .importNames _, o, claimed => by rw [Visitor.walkStatement, around_statement _ _ rfl]; rfl
  | .importFrom _, o, claimed => by rw [Visitor.walkStatement, around_statement _ _ rfl]; rfl
  | .importAll _, o, claimed => by rw [Visitor.walkStatement, around_statement _ _ rfl]; rfl
  | .returned _, o, claimed => by rw [Visitor.walkStatement, around_statement _ _ rfl]; rfl
  | .block kind b, o, claimed => by
    rw [Visitor.walkStatement, around_statement _ _ rfl, walkBlock_open b]
    rfl
  | .guarded body handlers orelse finalBody, o, claimed => by
    rw [Visitor.walkStatement, around_statement _ _ rfl, around_guarded,
      andThen_after (walkBody_open body o claimed) fun o claimed =>
        andThen_after (walkBlocks_open handlers o claimed) fun o claimed =>
          andThen_after (walkBody_open orelse o claimed) (walkBody_open finalBody),
      Statement.declarations, List.append_assoc, List.append_assoc]
  | .expression _, o, claimed => by
    rw [Visitor.walkStatement, Visitor.leaf, around_statement _ _ rfl]; rfl
  | .pass, o, claimed => by rw [Visitor.walkStatement, Visitor.leaf, around_statement _ _ rfl]; rfl
  | .other, o, claimed => by rw [Visitor.walkStatement, Visitor.leaf, around_statement _ _ rfl]; rfl

theorem walkBody_open : (body : List Statement) → (o : Open) → (claimed : List String) →
    (visitor ctx).walkBody body (o.state claimed)
      = .ok (o.after ctx claimed (Statement.declarationsIn body))
  | [], _, _ => rfl
  | st :: more, o, claimed => by
    rw [Visitor.walkBody, andThen_after (walkStatement_open st o claimed) (walkBody_open more),
      Statement.declarationsIn]

theorem walkBlock_open : (b : Block) → (o : Open) → (claimed : List String) →
    (visitor ctx).walkBlock b (o.state claimed)
      = .ok (o.after ctx claimed (Statement.blockDeclarations b))
  | .mk body orelse, o, claimed => by
    rw [Visitor.walkBlock, around_block,
      andThen_after (walkBody_open body o claimed) (walkBody_open orelse),
      Statement.blockDeclarations]

theorem walkBlocks_open : (bs : List Block) → (o : Open) → (claimed : List String) →
    (visitor ctx).walkBlocks bs (o.state claimed)
      = .ok (o.after ctx claimed (Statement.handlerDeclarations bs))
  | [], _, _ => rfl
  | b :: more, o, claimed => by
    rw [Visitor.walkBlocks, andThen_after (walkBlock_open b o claimed) (walkBlocks_open more),
      Statement.handlerDeclarations]
end

end Open

/-! ## 8. Files and packages -/

namespace SourceFile

theorem foldl_absorb_row (f : SourceFile) (ms : List Member) :
    ms.foldl ModuleRow.absorb f.row = f.finishedRow ms := by
  have main : ∀ row : ModuleRow, ms.foldl ModuleRow.absorb row =
      { row with
        classes := row.classes ++ ms.filterMap Member.classId?
        functions := row.functions ++ ms.filterMap Member.functionId?
        enums := row.enums ++ Member.enumIdsIn ms } := by
    induction ms with
    | nil => intro row; simp [Member.enumIdsIn]
    | cons m ms ih =>
      intro row
      rw [List.foldl_cons, ih]
      simp only [ModuleRow.absorb, Member.enumIdsIn, List.filterMap_cons, List.append_assoc]
      cases m.classId? <;> cases m.functionId? <;> simp
  exact main f.row

/-- **The walk over a file** ends with an empty stack, nothing skipped, no error and the model of
the file's members. -/
theorem walkFile_eq (f : SourceFile) (index : PackageIndex) (style : DocstringProvider) :
    (Assembly.visitor (f.context index style)).walkFile f {}
      = .ok { stack := [], api := f.model (f.context index style),
              claimed := (f.kept (f.context index style)).2, skipped := 0, error := none } := by
  have hvisit : (Assembly.visitor (f.context index style)).visit (.file f) {}
      = (.descend, Open.state ⟨f.row, [], {}⟩ [Id.ofPath f.path]) := rfl
  have hbody : (Assembly.visitor (f.context index style)).walkBody f.body _ = .ok _ :=
    Open.walkBody_open f.body ⟨f.row, [], {}⟩ [Id.ofPath f.path]
  have hkept : ModuleContext.keepAll (f.context index style)
      (Open.scope (f.context index style) ⟨f.row, [], {}⟩) (Statement.declarationsIn f.body)
      [Id.ofPath f.path] = f.kept (f.context index style) := rfl
  rw [Open.after, Open.foldl_absorb_module, hkept, foldl_absorb_row] at hbody
  refine (Visitor.around_of_descend hvisit hbody).trans ?_
  rw [model, entities, List.foldl_append]
  rfl

/-- A file contributes its model. -/
theorem assemble_eq (f : SourceFile) (index : PackageIndex) (style : DocstringProvider) :
    f.assemble index style = .ok (f.model (f.context index style)) := by
  have hctx :
      ({ index, module := f.fullname, style } : ModuleContext) = f.context index style := rfl
  simp only [assemble]
  rw [hctx, walkFile_eq]
  rfl

end SourceFile

/-- The models of all files, which are seen with one index. -/
theorem assembleAll_eq (files : List SourceFile) (style : DocstringStyle) :
    assembleAll files style = .ok (files.map fun f =>
      f.model (f.context (PackageIndex.build (files.map SourceFile.scan)) style.provider)) := by
  rw [assembleAll]
  generalize PackageIndex.build (files.map SourceFile.scan) = index
  induction files with
  | nil => rfl
  | cons f files ih =>
    rw [List.mapM_cons, SourceFile.assemble_eq, ih]
    rfl

/-- An error once recorded stays: no visit and no leave takes it back. -/
theorem Assembly.error_stays {ctx : ModuleContext} {s : Assembly} {e : AssemblyError}
    (h : s.error = some e) (node : Node) :
    ((visitor ctx).visit node s).2.error = some e
      ∧ ((visitor ctx).leave node s).error = some e := by
  have hdeclare : ∀ name frame, (s.declare ctx name frame).2.error = some e := by
    intro name frame
    rw [declare]
    split <;> exact h
  have hleave : ∀ finish, (s.leaveDeclared finish).error = some e := by
    intro finish
    rw [leaveDeclared, if_pos (by rw [h]; rfl : s.error.isSome = true)]
    split <;> exact h
  cases node with
  | file f =>
    refine ⟨?_, by simp [visitor, h]⟩
    simp only [visitor, visitFile]
    split <;> simp [push, fail, h]
  | classDef head body => exact ⟨hdeclare _ _, hleave _⟩
  | funcDef head body => exact ⟨hdeclare _ _, hleave _⟩
  | assignment a => simp [visitor, visitAssignment, h]
  | statement | importNames | importFrom | importAll | returned | block | guarded => exact ⟨h, h⟩

end ApiSurface
