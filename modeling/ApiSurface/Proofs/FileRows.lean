import ApiSurface.Proofs.Nesting
import ApiSurface.Proofs.References
/-!
# The rows of a file

Every row of a file's model is the row of its module, the row of a kept class, function or enum, or
one of the parts of such a member: an attribute, a parameter, a result or an instance.  A member's
row lists its parts; beyond that a class lists the classes and functions in it, and the module lists
its own and the enums at any depth.

Because no two members share an id, the row of every member finds its place in the tables.  Hence
the model of a file is closed and nested, and every row but that of the module is listed by another.
-/

namespace ApiSurface

/-! ## 1. The rows of a member -/

def Label.ref (l : Label) : Ref := ⟨l.kind, l.id⟩

/-- Whether entities of a kind are parts of others and list nothing. -/
def EntityKind.isPart : EntityKind → Bool
  | .attribute | .parameter | .result | .enumInstance => true
  | .module | .class | .function | .enum => false

theorem Entity.children_of_isPart {e : Entity} (he : e.ref.kind.isPart = true) :
    e.children = [] := by
  cases e with
  | parameter | «attribute» | result | enumInstance => rfl
  | module | «class» | function | enum => cases he

namespace Member

variable {ctx : ModuleContext}

/-- The row of a class, function or enum. -/
def row? (ctx : ModuleContext) : Member → Option Entity
  | .class scope head members => some (.class (ctx.finishedClass scope head members))
  | .enum scope head body =>
    some (.enum { (EnumFrame.start ctx scope head).row with
      instances := (instanceNames body).map (Id.child (Id.child scope.id head.name)) })
  | .function scope head body =>
    let id := Id.child scope.id head.name
    some (.function (ctx.functionRow (ctx.functionFrame scope head body)
      (ctx.parameters head id scope.owner) (ctx.results head body id scope.owner) scope.owner))
  | .assignment _ => none

/-- The rows of a member's parts. -/
def partRows (ctx : ModuleContext) : Member → List Entity
  | .class scope head members =>
    ((ClassFrame.start ctx scope head).newAttributes ctx (members.flatMap bindings)).map .attribute
  | .enum scope head body => (instanceNames body).map fun name =>
    .enumInstance ⟨Id.child (Id.child scope.id head.name) name, name⟩
  | .function scope head body =>
    let id := Id.child scope.id head.name
    (ctx.parameters head id scope.owner).map .parameter
      ++ (ctx.results head body id scope.owner).map .result
  | .assignment _ => []

/-- That a row belongs to a member, as its own or as that of a part. -/
def Brings (ctx : ModuleContext) (m : Member) (e : Entity) : Prop :=
  e ∈ m.partRows ctx ∨ m.row? ctx = some e

mutual
theorem mem_entities {e : Entity} : (m : Member) →
    (e ∈ m.entities ctx ↔ ∃ m' ∈ m.withBelow, m'.Brings ctx e)
  | .class scope head members => by
    rw [entities, withBelow, List.mem_append, mem_entitiesIn, exists_mem_entities members]
    simp only [List.mem_append, List.mem_singleton, or_and_right, exists_or, exists_eq_left]
    rw [Brings, or_comm (a := e ∈ _), or_assoc]
    refine or_congr_right (or_congr_right ?_)
    rw [row?, Option.some.injEq, eq_comm]
  | .enum scope head body => by
    rw [entities, withBelow]
    simp only [List.mem_singleton, exists_eq_left, Brings, row?, Option.some.injEq]
    rw [ModuleContext.enumEntities, List.mem_append, List.mem_singleton, eq_comm (a := e)]
    rfl
  | .function scope head body => by
    rw [entities, withBelow]
    simp only [List.mem_singleton, exists_eq_left, Brings, row?, Option.some.injEq]
    rw [ModuleContext.functionEntities, List.mem_append, List.mem_singleton, eq_comm (a := e)]
    rfl
  | .assignment a => by simp [entities, withBelow, Brings, row?, partRows]

theorem exists_mem_entities {e : Entity} : (ms : List Member) →
    ((∃ m ∈ ms, e ∈ m.entities ctx) ↔ ∃ m ∈ withBelowIn ms, m.Brings ctx e)
  | [] => by simp [withBelowIn]
  | m :: ms => by
    simp only [List.mem_cons, or_and_right, exists_or, exists_eq_left, mem_entities m,
      exists_mem_entities ms, withBelowIn, List.mem_append]
end

/-! ## 2. What refers to them -/

/-- The reference to a member's row. -/
theorem row?_ref (ctx : ModuleContext) (m : Member) :
    (m.row? ctx).map Entity.ref = m.label?.map Label.ref := by
  cases m with
  | «class» scope head members =>
    exact congrArg (fun id => some (Ref.mk .class id)) (ClassFrame.foldl_absorb_id ctx _ members)
  | enum | function | assignment => rfl

theorem label?_of_row? {m : Member} {e : Entity} (h : m.row? ctx = some e) :
    ∃ l, m.label? = some l ∧ e.ref = l.ref := by
  have href := row?_ref ctx m
  rw [h, Option.map_some] at href
  obtain ⟨l, hl, heq⟩ := Option.map_eq_some_iff.1 href.symm
  exact ⟨l, hl, heq.symm⟩

theorem row?_of_label? (ctx : ModuleContext) {m : Member} {l : Label} (h : m.label? = some l) :
    ∃ e, m.row? ctx = some e ∧ e.ref = l.ref := by
  have href := row?_ref ctx m
  rw [h, Option.map_some] at href
  exact Option.map_eq_some_iff.1 href

section Parts

variable (scope : Scope) (head : ClassHead) (members : List Member)

theorem class_partRows_ref :
    ((Member.class scope head members).partRows ctx).map Entity.ref
      = (ctx.finishedClass scope head members).attributes.map (Ref.mk .attribute) := by
  rw [← ctx.newAttributes_ids, partRows, List.map_map, List.map_map]
  rfl

theorem finishedClass_attributes :
    (ctx.finishedClass scope head members).attributes
      = (members.flatMap attributeNames).eraseDups.map (Id.child (Id.child scope.id head.name)) :=
  congrArg ClassOutline.attributes (Option.some.inj (ctx.finishedClass_outline scope head members))

end Parts

/-- The references to a member's parts. -/
theorem mem_partRows_ref {m : Member} {l : Label} (hl : m.label? = some l) {r : Ref} :
    r ∈ (m.partRows ctx).map Entity.ref ↔ ∃ p ∈ m.parts ctx, r = ⟨p.1, Id.child l.id p.2⟩ := by
  cases m with
  | «class» scope head members =>
    cases hl
    rw [class_partRows_ref, finishedClass_attributes, parts]
    simp [Label.id, eq_comm (a := r)]
  | enum scope head body =>
    cases hl
    rw [partRows, instanceNames_eq, parts]
    simp [Entity.ref, Label.id, eq_comm (a := r)]
  | function scope head body =>
    cases hl
    simp only [partRows, parts, List.map_append, List.map_map, List.mem_append, List.mem_map,
      or_and_right, exists_or]
    refine or_congr ?_ ?_
    · simp [ModuleContext.parameters, Entity.ref, Label.id, eq_comm (a := r)]
    · constructor
      · rintro ⟨row, hrow, rfl⟩
        exact ⟨_, ⟨row, hrow, rfl⟩, congrArg (Ref.mk .result) (ctx.id_of_mem_results hrow)⟩
      · rintro ⟨_, ⟨row, hrow, rfl⟩, rfl⟩
        exact ⟨row, hrow, congrArg (Ref.mk .result) (ctx.id_of_mem_results hrow)⟩
  | assignment a => cases hl

theorem isPart_of_partRows {m : Member} {e : Entity} (he : e ∈ m.partRows ctx) :
    e.ref.kind.isPart = true := by
  cases m with
  | «class» | enum =>
    obtain ⟨_, -, rfl⟩ := List.mem_map.1 he
    rfl
  | function =>
    rcases List.mem_append.1 he with he | he <;> obtain ⟨_, -, rfl⟩ := List.mem_map.1 he <;> rfl
  | assignment => cases he

theorem label?_of_partRows {m : Member} {e : Entity} (he : e ∈ m.partRows ctx) :
    ∃ l, m.label? = some l := by
  cases m with
  | «class» | enum | function => exact ⟨_, rfl⟩
  | assignment => cases he

theorem isPart_of_label? {m : Member} {l : Label} (hl : m.label? = some l) :
    l.kind.isPart = false := by
  cases m <;> cases hl <;> rfl

/-! ## 3. What the rows list -/

/-- The members directly in a class. -/
def inside : Member → List Member
  | .class _ _ members => members
  | _ => []

/-- The reference under which a module or class lists a class or function in it. -/
def listed? : Member → Option Ref
  | .class scope head _ => some ⟨.class, Id.child scope.id head.name⟩
  | .function scope head _ => some ⟨.function, Id.child scope.id head.name⟩
  | _ => none

theorem listed?_eq_some {m : Member} {r : Ref} :
    m.listed? = some r ↔ ∃ l, m.label? = some l ∧ l.kind ≠ .enum ∧ l.ref = r := by
  cases m <;> simp [listed?, label?, Label.ref, Label.id]

/-- A class lists a function as a method or as its constructor. -/
theorem listed?_iff_lists {m : Member} {r : Ref} :
    m.listed? = some r ↔ (m.methodId?.map (Ref.mk .function) = some r
      ∨ m.initializerId?.map (Ref.mk .function) = some r)
        ∨ m.classId?.map (Ref.mk .class) = some r := by
  cases m with
  | «class» | enum | assignment => simp [listed?, methodId?, initializerId?, classId?]
  | function scope head body =>
    rw [listed?, methodId?, initializerId?]
    cases head.name == DocstringStyle.initializer <;> simp [classId?]

theorem mem_filterMap_ref {ms : List Member} {g : Member → Option String} {kind : EntityKind}
    {r : Ref} :
    r ∈ (ms.filterMap g).map (Ref.mk kind) ↔ ∃ m ∈ ms, (g m).map (Ref.mk kind) = some r := by
  rw [List.map_filterMap, List.mem_filterMap]

theorem initializerId?_eq {m : Member} {id : String} (h : m.initializerId? = some id) :
    ∃ scope, m.scope? = some scope ∧ id = Id.child scope.id DocstringStyle.initializer := by
  cases m with
  | function scope head body =>
    rw [initializerId?] at h
    split at h
    · rename_i hname
      cases h
      exact ⟨scope, rfl, by rw [beq_iff_eq.1 hname]⟩
    · cases h
  | «class» | enum | assignment => cases h

/-- All initializers in a class share an id, so it does not matter which of them is listed. -/
theorem mem_constructor_ref {ms : List Member} {id : String}
    (hscope : ∀ m ∈ ms, ∀ s, m.scope? = some s → s.id = id) {r : Ref} :
    r ∈ (ms.filterMap initializerId?).getLast?.toList.map (Ref.mk .function)
      ↔ ∃ m ∈ ms, m.initializerId?.map (Ref.mk .function) = some r := by
  have hid : ∀ i ∈ ms.filterMap initializerId?, i = Id.child id DocstringStyle.initializer := by
    intro i hi
    obtain ⟨m, hm, hmi⟩ := List.mem_filterMap.1 hi
    obtain ⟨scope, hs, rfl⟩ := initializerId?_eq hmi
    rw [hscope m hm scope hs]
  rw [← mem_filterMap_ref, List.mem_map, List.mem_map]
  constructor
  · rintro ⟨i, hi, rfl⟩
    exact ⟨i, List.mem_of_getLast? (Option.mem_toList.1 hi), rfl⟩
  · rintro ⟨i, hi, rfl⟩
    obtain ⟨last, hlast⟩ :=
      Option.isSome_iff_exists.1 (List.getLast?_isSome.2 (List.ne_nil_of_mem hi))
    refine ⟨i, ?_, rfl⟩
    rw [hlast, hid i hi, ← hid last (List.mem_of_getLast? hlast)]
    exact Option.mem_toList.2 rfl

/-- What is in a class of some members is among them, and has the class for its owner. -/
theorem Claims.inside {scope : Scope} {claimed after : List String} {ms : List Member} {m : Member}
    {l : Label} (h : Claims ctx scope claimed ms after) (hm : m ∈ withBelowIn ms)
    (hl : m.label? = some l) :
    ∀ m' ∈ m.inside, m' ∈ withBelowIn ms ∧ ∀ s, m'.scope? = some s → s.id = l.id := by
  intro m' hm'
  cases m with
  | «class» s head members =>
    cases hl
    refine ⟨mem_withBelowIn_of_class hm' ms hm, fun s' hs' => ?_⟩
    rw [h.nested s head members hm m' hm' s' hs']
    rfl
  | enum | function | assignment => cases hm'

/-- A member's row lists its parts, and a class's row the classes and functions in it as well. -/
theorem mem_children {m : Member} {e : Entity} {l : Label} (hrow : m.row? ctx = some e)
    (hl : m.label? = some l) (hscope : ∀ m' ∈ m.inside, ∀ s, m'.scope? = some s → s.id = l.id)
    {r : Ref} :
    r ∈ e.children
      ↔ r ∈ (m.partRows ctx).map Entity.ref ∨ ∃ m' ∈ m.inside, m'.listed? = some r := by
  cases m with
  | «class» scope head members =>
    cases hrow
    cases hl
    change ∀ m ∈ members, _ at hscope
    have hlists := Option.some.inj (ctx.finishedClass_outline scope head members)
    have hmethods := congrArg ClassOutline.methods hlists
    have hconstructor := congrArg ClassOutline.constructor? hlists
    have hclasses := congrArg ClassOutline.classes hlists
    simp only [ClassRow.outline] at hmethods hconstructor hclasses
    rw [Entity.children, List.mem_append, ← class_partRows_ref, or_comm, List.mem_append,
      List.mem_append, hmethods, hconstructor, hclasses, mem_filterMap_ref, mem_filterMap_ref,
      mem_constructor_ref hscope, ← exists_or, ← exists_or]
    simp only [listed?_iff_lists, and_or_left, inside]
  | enum scope head body =>
    cases hrow
    simp [Entity.children, partRows, inside, Entity.ref]
  | function scope head body =>
    cases hrow
    simp [Entity.children, partRows, inside, ModuleContext.functionRow, Entity.ref]
  | assignment a => cases hrow

end Member

/-! ## 4. The rows of a file -/

namespace SourceFile

open Member (withBelowIn)

variable {f : SourceFile} {ctx : ModuleContext}

theorem mem_entities_iff {e : Entity} :
    e ∈ f.entities ctx ↔ e = .module (f.finishedRow (f.members ctx))
      ∨ ∃ m ∈ withBelowIn (f.members ctx), m.Brings ctx e := by
  rw [entities, List.mem_append, List.mem_flatMap, Member.exists_mem_entities, List.mem_singleton,
    or_comm]

/-- A module lists the classes and functions directly in it and the enums at any depth. -/
theorem mem_module_children {r : Ref} :
    r ∈ (Entity.module (f.finishedRow (f.members ctx))).children
      ↔ (∃ m ∈ f.members ctx, m.listed? = some r)
        ∨ ∃ m ∈ withBelowIn (f.members ctx), ∃ l,
          m.label? = some l ∧ l.kind = .enum ∧ l.ref = r := by
  have hlisted : ∀ m : Member, m.listed? = some r ↔ m.classId?.map (Ref.mk .class) = some r
      ∨ m.functionId?.map (Ref.mk .function) = some r := by
    intro m
    cases m <;> simp [Member.listed?, Member.classId?, Member.functionId?]
  have henum : ∀ m : Member, (m.enumOutline?.map EnumOutline.id).map (Ref.mk .enum) = some r
      ↔ ∃ l, m.label? = some l ∧ l.kind = .enum ∧ l.ref = r := by
    intro m
    cases m <;> simp [Member.enumOutline?, Member.label?, Label.ref, Label.id]
  simp only [Entity.children, finishedRow, List.mem_append, Member.enumIdsIn_eq, List.map_filterMap,
    List.mem_filterMap, henum, hlisted, and_or_left, exists_or]

/-- What a row of a file lists is declared in the file and lies below the row's id. -/
theorem declares_of_mem_children {e : Entity} (he : e ∈ f.entities ctx) {r : Ref}
    (hr : r ∈ e.children) :
    f.Declares ctx r.kind r.id ∧ ∃ n, r.id = Id.child e.ref.id n := by
  have hclaims := f.claims_members ctx
  rcases mem_entities_iff.1 he with rfl | ⟨m, hm, he | he⟩
  · rcases mem_module_children.1 hr with ⟨m, hm, hlisted⟩ | ⟨m, hm, l, hl, -, rfl⟩
    · obtain ⟨l, hl, -, rfl⟩ := Member.listed?_eq_some.1 hlisted
      refine ⟨.inr ⟨m, Member.mem_withBelowIn_self hm, .self hl⟩, l.name, ?_⟩
      rw [Label.ref, Label.id, hclaims.owner_eq hm hl]
      rfl
    · exact ⟨.inr ⟨m, hm, .self hl⟩, hclaims.below m hm l hl⟩
  · rw [Entity.children_of_isPart (Member.isPart_of_partRows he)] at hr
    cases hr
  · obtain ⟨l, hl, href⟩ := Member.label?_of_row? he
    have hinside := hclaims.inside hm hl
    rw [href]
    rcases (Member.mem_children he hl fun m' hm' => (hinside m' hm').2).1 hr with hr | ⟨m', hm', hr⟩
    · obtain ⟨p, hp, rfl⟩ := (Member.mem_partRows_ref hl).1 hr
      exact ⟨.inr ⟨m, hm, .part hl hp⟩, p.2, rfl⟩
    · obtain ⟨l', hl', -, rfl⟩ := Member.listed?_eq_some.1 hr
      obtain ⟨s, hs, howner⟩ := Member.scope?_of_label? hl'
      refine ⟨.inr ⟨m', (hinside m' hm').1, .self hl'⟩, l'.name, ?_⟩
      rw [Label.ref, Label.id, ← howner, (hinside m' hm').2 s hs]
      rfl

/-- Classes and functions are listed only by the row of the module or class in which they stand. -/
theorem owner_of_mem_children {o : Entity} (ho : o ∈ f.entities ctx) {m : Member} {l : Label}
    (hm : m ∈ withBelowIn (f.members ctx)) (hl : m.label? = some l) (hkind : l.kind ≠ .enum)
    (hr : l.ref ∈ o.children) : l.owner = o.ref.id := by
  have hclaims := f.claims_members ctx
  have heq : ∀ m' ∈ withBelowIn (f.members ctx), ∀ l', m'.label? = some l' → l'.ref = l.ref →
      m' = m :=
    fun m' hm' l' hl' href =>
      Member.eq_of_label_id hclaims.nodup hm' hm hl' hl (congrArg Ref.id href)
  rcases mem_entities_iff.1 ho with rfl | ⟨c, hc, ho | ho⟩
  · rcases mem_module_children.1 hr with ⟨m', hm', hlisted⟩ | ⟨m', -, l', -, henum, href⟩
    · obtain ⟨l', hl', -, href⟩ := Member.listed?_eq_some.1 hlisted
      obtain rfl := heq m' (Member.mem_withBelowIn_self hm') l' hl' href
      exact hclaims.owner_eq hm' hl
    · exact absurd ((congrArg Ref.kind href).symm.trans henum) hkind
  · rw [Entity.children_of_isPart (Member.isPart_of_partRows ho)] at hr
    cases hr
  · obtain ⟨lc, hlc, href⟩ := Member.label?_of_row? ho
    have hinside := hclaims.inside hc hlc
    rw [href]
    rcases (Member.mem_children ho hlc fun m' hm' => (hinside m' hm').2).1 hr
      with hr | ⟨m', hm', hr⟩
    · obtain ⟨e, he, heref⟩ := List.mem_map.1 hr
      have hpart := Member.isPart_of_partRows he
      rw [heref, Label.ref, Member.isPart_of_label? hl] at hpart
      cases hpart
    · obtain ⟨l', hl', -, href'⟩ := Member.listed?_eq_some.1 hr
      obtain rfl := heq m' (hinside m' hm').1 l' hl' href'
      obtain ⟨s, hs, howner⟩ := Member.scope?_of_label? hl
      exact howner.symm.trans ((hinside m' hm').2 s hs)

/-- A file has one module. -/
theorem eq_module_of_kind {e : Entity} (he : e ∈ f.entities ctx) (hkind : e.ref.kind = .module) :
    e = .module (f.finishedRow (f.members ctx)) := by
  rcases mem_entities_iff.1 he with rfl | ⟨m, -, he | he⟩
  · rfl
  · have hpart := Member.isPart_of_partRows he
    rw [hkind] at hpart
    cases hpart
  · obtain ⟨l, hl, heq⟩ := Member.label?_of_row? he
    rw [heq] at hkind
    cases m <;> cases hl <;> cases hkind

/-- The row of the module is in the model. -/
theorem holds_module : (f.model ctx).Holds (.module (f.finishedRow (f.members ctx))) := by
  refine Api.holds_foldl_add_of_alone (mem_entities_iff.2 (.inl rfl)) ?_
  intro e he href
  exact eq_module_of_kind he (congrArg Ref.kind href)

/-- The row of every member is in the model. -/
theorem holds_row {m : Member} {e : Entity} (hm : m ∈ withBelowIn (f.members ctx))
    (he : m.row? ctx = some e) : (f.model ctx).Holds e := by
  obtain ⟨l, hl, href⟩ := Member.label?_of_row? he
  refine Api.holds_foldl_add_of_alone (mem_entities_iff.2 (.inr ⟨m, hm, .inr he⟩)) ?_
  intro e' he' href'
  rw [href] at href'
  rcases mem_entities_iff.1 he' with rfl | ⟨m', hm', he' | he'⟩
  · cases m <;> cases hl <;> cases href'
  · have hpart := Member.isPart_of_partRows he'
    rw [href', Label.ref, Member.isPart_of_label? hl] at hpart
    cases hpart
  · obtain ⟨l', hl', heq⟩ := Member.label?_of_row? he'
    have hid : l'.id = l.id := congrArg Ref.id (heq.symm.trans href')
    have hsame := Member.eq_of_label_id (f.claims_members ctx).nodup hm' hm hl' hl hid
    rw [hsame, he] at he'
    exact (Option.some.inj he').symm

/-! ## 5. The graph of a file -/

theorem model_closed (f : SourceFile) (ctx : ModuleContext) : (f.model ctx).Closed := by
  intro e he r hr
  exact mem_ids_model.2 (declares_of_mem_children he.of_foldl_add hr).1

theorem model_nested (f : SourceFile) (ctx : ModuleContext) : (f.model ctx).Nested := by
  intro e he r hr
  exact (declares_of_mem_children he.of_foldl_add hr).2

/-- Every row but that of the module is listed by another. -/
theorem model_listed (f : SourceFile) (ctx : ModuleContext) (e : Entity)
    (he : (f.model ctx).Holds e) (hkind : e.ref.kind ≠ .module) : (f.model ctx).Listed e.ref := by
  have hclaims := f.claims_members ctx
  rcases mem_entities_iff.1 he.of_foldl_add with rfl | ⟨m, hm, he | he⟩
  · exact absurd rfl hkind
  · obtain ⟨l, hl⟩ := Member.label?_of_partRows he
    obtain ⟨row, hrow, -⟩ := Member.row?_of_label? ctx hl
    refine ⟨row, holds_row hm hrow, ?_⟩
    rw [Member.mem_children hrow hl fun m' hm' => (hclaims.inside hm hl m' hm').2]
    exact .inl (List.mem_map_of_mem he)
  · obtain ⟨l, hl, href⟩ := Member.label?_of_row? he
    rw [href]
    by_cases henum : l.kind = .enum
    · exact ⟨_, holds_module, mem_module_children.2 (.inr ⟨m, hm, l, hl, henum, rfl⟩)⟩
    · have hlisted : m.listed? = some l.ref := Member.listed?_eq_some.2 ⟨l, hl, henum, rfl⟩
      rcases Member.mem_or_inClass _ hm with hdirect | ⟨scope, head, members, hc, hin⟩
      · exact ⟨_, holds_module, mem_module_children.2 (.inl ⟨m, hdirect, hlisted⟩)⟩
      · refine ⟨_, holds_row hc rfl, ?_⟩
        rw [Member.mem_children rfl rfl fun m' hm' => (hclaims.inside hc rfl m' hm').2]
        exact .inr ⟨m, hin, hlisted⟩

end SourceFile

end ApiSurface
