import ApiSurface.Proofs.FileRows
/-!
# What is public in a file

Classes, functions, enums and attributes are marked as public or not while the file is walked, each
from the scope that is open at that moment.  This module says what the marks come to, from the rows
alone.  A row tells where it stands: its id is that of its owner with its own name below it, and the
owner is the module or a class.  Directly in the module the rule of the module decides; in a class a
row is public if the class is and its own name is not internal (`Placed`).

Hence the mark of a row has a closed form along the classes around it: the outermost is public by
the rule of the module, and no further name down to the row's own is internal.
-/

namespace ApiSurface

/-! ## 1. Marks -/

/-- The id, the name and the publicity of a row. -/
structure Mark where
  id : String
  name : String
  isPublic : Bool

/-- That a row stands directly in the module or class with an id. -/
def Mark.StandsIn (m : Mark) (owner : String) : Prop := m.id = Id.child owner m.name

namespace Entity

/-- The mark of a class, function, enum or attribute. -/
def mark? : Entity → Option Mark
  | .class r => some ⟨r.id, r.name, r.isPublic⟩
  | .function r => some ⟨r.id, r.name, r.isPublic⟩
  | .enum r => some ⟨r.id, r.name, r.isPublic⟩
  | .attribute r => some ⟨r.id, r.name, r.isPublic⟩
  | .module _ | .parameter _ | .result _ | .enumInstance _ => none

/-- The qualified name of a class, function or enum. -/
def qualifiedName? : Entity → Option String
  | .class r => some r.qualifiedName
  | .function r => some r.qualifiedName
  | .enum r => some r.qualifiedName
  | .module _ | .parameter _ | .attribute _ | .result _ | .enumInstance _ => none

end Entity

/-- The rule for what is directly in a module: a package entry offers it publicly, or neither its
name nor a component of the module's name is internal. -/
def SourceFile.PublicInModule (f : SourceFile) (index : PackageIndex) (name qname : String) :
    Prop :=
  index.offersPublicly name qname = true
    ∨ isInternalName name = false ∧ ∀ part ∈ Text.components f.fullname, isInternalName part = false

theorem isPublic_module_iff {f : SourceFile} {index : PackageIndex} {name qname : String} :
    index.isPublic name qname (.module f.fullname) = true ↔ f.PublicInModule index name qname := by
  simp [PackageIndex.isPublic, SourceFile.PublicInModule, isInternalModule]

theorem isPublic_class_iff (index : PackageIndex) (name qname : String) (isPublic : Bool) :
    index.isPublic name qname (.class isPublic) = true
      ↔ isPublic = true ∧ isInternalName name = false := by
  simp [PackageIndex.isPublic]

/-! ## 2. Marks of members -/

theorem isInternalName_initializer : isInternalName DocstringStyle.initializer = false := by decide

/-- Initializers have a branch of their own, which comes to the same: their name is not internal. -/
theorem functionIsPublic_eq (ctx : ModuleContext) (head : FunctionHead) (place : Container) :
    Assembly.functionIsPublic ctx head place
      = ctx.index.isPublic head.name head.fullname place := by
  cases place with
  | module => rfl
  | «class» isPublic =>
    rw [Assembly.functionIsPublic]
    split
    · rename_i hname
      rw [PackageIndex.isPublic, beq_iff_eq.1 hname, isInternalName_initializer, Bool.not_false,
        Bool.and_true]
    · rfl

/-- A finished class has the mark with which it was opened. -/
theorem ModuleContext.finishedClass_mark (ctx : ModuleContext) (scope : Scope) (head : ClassHead)
    (members : List Member) :
    (Entity.class (ctx.finishedClass scope head members)).mark?
        = some ⟨Id.child scope.id head.name, head.name,
          ctx.index.isPublic head.name head.fullname scope.place⟩
      ∧ (ctx.finishedClass scope head members).qualifiedName = head.fullname := by
  have hopened := ClassFrame.foldl_absorb_withoutMembers ctx (.start ctx scope head) members
  have hmark := congrArg (fun c => (Entity.class c).mark?) hopened
  have hname := congrArg ClassRow.qualifiedName hopened
  exact ⟨hmark, hname⟩

/-- The mark of a member's row, from the scope in which the member stands. -/
theorem Member.mark_of_row {ctx : ModuleContext} {m : Member} {e : Entity} {l : Label}
    (h : m.row? ctx = some e) (hl : m.label? = some l) :
    ∃ scope qname, m.scope? = some scope ∧ scope.id = l.owner ∧ e.qualifiedName? = some qname
      ∧ e.mark? = some ⟨l.id, l.name, ctx.index.isPublic l.name qname scope.place⟩ := by
  cases m with
  | «class» scope head members =>
    cases h
    cases hl
    obtain ⟨hmark, hname⟩ := ctx.finishedClass_mark scope head members
    exact ⟨scope, head.fullname, rfl, rfl, congrArg some hname, hmark⟩
  | enum scope head body =>
    cases h
    cases hl
    exact ⟨scope, head.fullname, rfl, rfl, rfl, rfl⟩
  | function scope head body =>
    cases h
    cases hl
    refine ⟨scope, head.fullname, rfl, rfl, rfl, ?_⟩
    rw [← functionIsPublic_eq]
    rfl
  | assignment a => cases h

/-! ## 3. Where rows stand -/

/-- That a row of a file stands in the module or in a class, and is marked accordingly. -/
inductive Placed (f : SourceFile) (index : PackageIndex) (a : Api) (e : Entity) (m : Mark) : Prop
  | module {qname : String} (hname : e.qualifiedName? = some qname)
      (hid : m.StandsIn (Id.ofPath f.path))
      (hpublic : m.isPublic = true ↔ f.PublicInModule index m.name qname)
  | class {c : ClassRow} (hc : a.Holds (.class c)) (hid : m.StandsIn c.id)
      (hpublic : m.isPublic = true ↔ c.isPublic = true ∧ isInternalName m.name = false)

namespace SourceFile

open Member (withBelowIn)

variable {f : SourceFile} {ctx : ModuleContext} {e : Entity} {mark : Mark} {c : ClassRow}

/-- A class opens a scope with the id and the publicity of its row. -/
theorem holds_class {s : Scope} {head : ClassHead} {members : List Member}
    (h : .class s head members ∈ withBelowIn (f.members ctx)) :
    ∃ c, (f.model ctx).Holds (.class c) ∧ c.id = (ctx.classScope s head).id
      ∧ (ctx.classScope s head).place = .class c.isPublic := by
  refine ⟨_, holds_row h rfl, ?_⟩
  have hmark := (ctx.finishedClass_mark s head members).1
  simp only [Entity.mark?, Option.some.injEq, Mark.mk.injEq] at hmark
  exact ⟨hmark.1, congrArg Container.class hmark.2.2.symm⟩

/-- A row with a qualified name is that of a member. -/
theorem exists_row (he : (f.model ctx).Holds e) {qname : String}
    (hname : e.qualifiedName? = some qname) :
    ∃ m ∈ withBelowIn (f.members ctx), m.row? ctx = some e := by
  rcases mem_entities_iff.1 he.of_foldl_add with rfl | ⟨m, hm, he | he⟩
  · cases hname
  · have hpart := Member.isPart_of_partRows he
    cases e <;> cases hname <;> cases hpart
  · exact ⟨m, hm, he⟩

theorem placed_of_row {m : Member} (hm : m ∈ withBelowIn (f.members ctx)) (he : m.row? ctx = some e)
    (hmark : e.mark? = some mark) : Placed f ctx.index (f.model ctx) e mark := by
  obtain ⟨l, hl, -⟩ := Member.label?_of_row? he
  obtain ⟨scope, qname, hscope, howner, hname, hmark'⟩ := Member.mark_of_row he hl
  obtain rfl := Option.some.inj (hmark.symm.trans hmark')
  have hclaims := f.claims_members ctx
  -- The scope of a member is the one that the module or the class around it opens.
  rcases Member.mem_or_inClass _ hm with hdirect | ⟨s, head, members, hc, hin⟩
  · obtain rfl := hclaims.direct m hdirect scope hscope
    refine .module hname ?_ ?_
    · exact congrArg (Id.child · l.name) howner.symm
    · dsimp only
      exact isPublic_module_iff
  · obtain rfl := hclaims.nested s head members hc m hin scope hscope
    obtain ⟨c, hrow, hid, hplace⟩ := holds_class hc
    refine .class hrow ?_ ?_
    · exact congrArg (Id.child · l.name) (hid.trans howner).symm
    · rw [hplace]
      exact isPublic_class_iff ctx.index l.name qname c.isPublic

theorem placed_of_part {m : Member} (hm : m ∈ withBelowIn (f.members ctx)) (he : e ∈ m.partRows ctx)
    (hmark : e.mark? = some mark) : Placed f ctx.index (f.model ctx) e mark := by
  cases m with
  | «class» s head members =>
    obtain ⟨r, hr, rfl⟩ := List.mem_map.1 he
    obtain ⟨b, -, rfl⟩ := List.mem_map.1 hr
    cases hmark
    obtain ⟨c, hrow, hid, hplace⟩ := holds_class hm
    refine .class hrow ?_ ?_
    · exact congrArg (Id.child · b.target.name) hid.symm
    · rw [← Container.class.inj hplace]
      exact isPublic_class_iff ctx.index b.target.name (head.fullname ++ "." ++ b.target.name) _
  | enum =>
    obtain ⟨r, -, rfl⟩ := List.mem_map.1 he
    cases hmark
  | function =>
    rcases List.mem_append.1 he with he | he <;> obtain ⟨r, -, rfl⟩ := List.mem_map.1 he <;>
      cases hmark
  | assignment => cases he

theorem placed (he : (f.model ctx).Holds e) (hmark : e.mark? = some mark) :
    Placed f ctx.index (f.model ctx) e mark := by
  rcases mem_entities_iff.1 he.of_foldl_add with rfl | ⟨m, hm, he | he⟩
  · cases hmark
  · exact placed_of_part hm he hmark
  · exact placed_of_row hm he hmark

/-- No class has the id of the module. -/
theorem class_id_ne (hc : (f.model ctx).Holds (.class c)) : c.id ≠ Id.ofPath f.path := by
  intro hid
  obtain ⟨m, hm, hrow⟩ := exists_row hc rfl
  obtain ⟨l, hl, href⟩ := Member.label?_of_row? hrow
  have hl' : l.id = Id.ofPath f.path := (congrArg Ref.id href).symm.trans hid
  refine (f.claims_members ctx).fresh l.id (Member.mem_labelIds hm hl) ?_
  rw [hl']
  exact List.mem_singleton_self _

/-- The row of a member of a class does not stand directly in the module. -/
theorem not_standsIn_of_inClass {m : Member}
    (hm : Member.InClass (withBelowIn (f.members ctx)) m) (hrow : m.row? ctx = some e)
    (hmark : e.mark? = some mark) : ¬ mark.StandsIn (Id.ofPath f.path) := by
  intro hid
  obtain ⟨s, head, members, hc, hin⟩ := hm
  obtain ⟨l, hl, -⟩ := Member.label?_of_row? hrow
  obtain ⟨scope, _, hscope, howner, -, hmark'⟩ := Member.mark_of_row hrow hl
  obtain rfl := Option.some.inj (hmark.symm.trans hmark')
  obtain rfl := (f.claims_members ctx).nested s head members hc m hin scope hscope
  -- The class around the row would have the id of the module.
  obtain ⟨c, hrow', hcid, -⟩ := holds_class hc
  refine class_id_ne hrow' ?_
  rw [hcid, howner]
  exact Id.child_left_inj.1 hid

/-- A class or function stands in the row that lists it. -/
theorem standsIn_of_listed {o : Entity} {qname : String} (ho : (f.model ctx).Holds o)
    (he : (f.model ctx).Holds e) (hmark : e.mark? = some mark)
    (hname : e.qualifiedName? = some qname) (hkind : e.ref.kind ≠ .enum)
    (hlisted : e.ref ∈ o.children) : mark.StandsIn o.ref.id := by
  obtain ⟨m, hm, hrow⟩ := exists_row he hname
  obtain ⟨l, hl, href⟩ := Member.label?_of_row? hrow
  obtain ⟨_, _, -, -, -, hmark'⟩ := Member.mark_of_row hrow hl
  obtain rfl := Option.some.inj (hmark.symm.trans hmark')
  rw [href] at hkind hlisted
  rw [← owner_of_mem_children ho.of_foldl_add hm hl hkind hlisted]
  rfl

/-- The constructor of a class bears the name of initializers. -/
theorem constructor_id {id : String} (hc : (f.model ctx).Holds (.class c))
    (h : c.constructor? = some id) : id = Id.child c.id DocstringStyle.initializer := by
  obtain ⟨m, hm, hrow⟩ := exists_row hc rfl
  cases m with
  | «class» s head members =>
    cases hrow
    have hlists := Option.some.inj (ctx.finishedClass_outline s head members)
    have hconstructor := congrArg ClassOutline.constructor? hlists
    simp only [ClassRow.outline] at hconstructor
    rw [hconstructor] at h
    obtain ⟨m, hin, hid⟩ := List.mem_filterMap.1 (List.mem_of_getLast? h)
    obtain ⟨scope, hscope, rfl⟩ := Member.initializerId?_eq hid
    rw [(f.claims_members ctx).nested s head members hm m hin scope hscope]
    exact congrArg (Id.child · _) (congrArg ClassOutline.id hlists).symm
  | enum | function | assignment => cases hrow

/-! ## 4. Rules -/

/-- The rule of the module, for what stands directly in it. -/
theorem isPublic_of_module {qname : String} (he : (f.model ctx).Holds e)
    (hmark : e.mark? = some mark) (hname : e.qualifiedName? = some qname)
    (hid : mark.StandsIn (Id.ofPath f.path)) :
    mark.isPublic = true ↔ f.PublicInModule ctx.index mark.name qname := by
  cases placed he hmark with
  | module hname' _ hpublic =>
    obtain rfl := Option.some.inj (hname.symm.trans hname')
    exact hpublic
  | «class» hc hid' => exact absurd (Id.child_left_inj.1 (hid'.symm.trans hid)) (class_id_ne hc)

/-- The rule of classes, for what stands directly in them. -/
theorem isPublic_of_class (hc : (f.model ctx).Holds (.class c)) (he : (f.model ctx).Holds e)
    (hmark : e.mark? = some mark) (hid : mark.StandsIn c.id) :
    mark.isPublic = true ↔ c.isPublic = true ∧ isInternalName mark.name = false := by
  cases placed he hmark with
  | module _ hid' => exact absurd (Id.child_left_inj.1 (hid.symm.trans hid')) (class_id_ne hc)
  | «class» hc' hid' hpublic =>
    have hsame : c.id = _ := Id.child_left_inj.1 (hid.symm.trans hid')
    cases hc.eq_of_ref_eq hc' (congrArg (Ref.mk .class) hsame)
    exact hpublic

theorem isPublic_of_constructor {r : FunctionRow} (hc : (f.model ctx).Holds (.class c))
    (hr : (f.model ctx).Holds (.function r)) (h : c.constructor? = some r.id) :
    r.isPublic = c.isPublic := by
  have hlisted : (Entity.function r).ref ∈ (Entity.class c).children := by
    simp [Entity.children, Entity.ref, h]
  have hid := standsIn_of_listed hc hr rfl rfl (by simp [Entity.ref]) hlisted
  have hname : r.name = DocstringStyle.initializer :=
    Id.child_right_inj.1 (hid.symm.trans (constructor_id hc h))
  rw [Bool.eq_iff_iff]
  refine (isPublic_of_class hc hr rfl hid).trans (and_iff_left ?_)
  rw [hname, isInternalName_initializer]

end SourceFile

/-! ## 5. Paths of classes -/

namespace Api

/-- That classes stand each in the one before, the first in one id and the last with another. -/
def Leads (a : Api) : (owner : String) → List ClassRow → (last : String) → Prop
  | owner, [], last => owner = last
  | owner, c :: cs, last => a.Holds (.class c) ∧ c.id = Id.child owner c.name ∧ a.Leads c.id cs last

theorem Leads.concat {a : Api} {owner last : String} {cs : List ClassRow} {c : ClassRow}
    (h : a.Leads owner cs last) (hc : a.Holds (.class c)) (hid : c.id = Id.child last c.name) :
    a.Leads owner (cs ++ [c]) c.id := by
  induction cs generalizing owner with
  | nil =>
    cases h
    exact ⟨hc, hid, rfl⟩
  | cons d ds ih => exact ⟨h.1, h.2.1, ih h.2.2⟩

end Api

namespace SourceFile

variable {f : SourceFile} {ctx : ModuleContext} {e : Entity} {mark : Mark} {c : ClassRow}

/-- Along a path of classes no further name may be internal. -/
theorem isPublic_of_leads {cs : List ClassRow} {owner : String}
    (hc : (f.model ctx).Holds (.class c)) (hcs : (f.model ctx).Leads c.id cs owner)
    (he : (f.model ctx).Holds e) (hmark : e.mark? = some mark) (hid : mark.StandsIn owner) :
    mark.isPublic = true ↔ c.isPublic = true ∧ (∀ d ∈ cs, isInternalName d.name = false)
      ∧ isInternalName mark.name = false := by
  induction cs generalizing c with
  | nil =>
    cases hcs
    simp [isPublic_of_class hc he hmark hid]
  | cons d ds ih =>
    -- The next class passes on what reaches it.
    obtain ⟨hd, hdid, hds⟩ := hcs
    have hpublic : d.isPublic = true ↔ c.isPublic = true ∧ isInternalName d.name = false :=
      isPublic_of_class hc hd rfl hdid
    rw [ih hd hds, hpublic, List.forall_mem_cons]
    simp only [and_assoc]

/-- Every marked row has a path of classes from the module, and attributes one that is not empty. -/
theorem exists_leads (he : (f.model ctx).Holds e) (hmark : e.mark? = some mark) :
    ∃ cs owner, (f.model ctx).Leads (Id.ofPath f.path) cs owner ∧ mark.StandsIn owner
      ∧ (cs = [] → e.qualifiedName?.isSome) := by
  -- The owner of a row has a shorter id.
  induction hn : mark.id.toList.length using Nat.strongRecOn generalizing e mark with
  | ind n ih =>
    cases placed he hmark with
    | module hname hid => exact ⟨[], _, rfl, hid, fun _ => by rw [hname]; rfl⟩
    | @«class» c hc hid =>
      have hlt : c.id.toList.length < n := by
        rw [← hn, hid]
        exact Id.length_lt_child c.id mark.name
      obtain ⟨cs, owner, hcs, hcid, -⟩ := ih _ hlt hc rfl rfl
      exact ⟨cs ++ [c], c.id, hcs.concat hc hcid, hid, by simp⟩

end SourceFile

/-! ## 6. The publicity of a file -/

/-- What the marks in an API model of a file come to.  Rows stand where their ids say. -/
structure Publicity (f : SourceFile) (index : PackageIndex) (a : Api) : Prop where
  /-- Classes, functions and enums directly in the module. -/
  inModule : ∀ e m qname, a.Holds e → e.mark? = some m → e.qualifiedName? = some qname →
    m.StandsIn (Id.ofPath f.path) → (m.isPublic = true ↔ f.PublicInModule index m.name qname)
  /-- Methods, classes, enums and attributes directly in a class. -/
  inClass : ∀ c e m, a.Holds (.class c) → a.Holds e → e.mark? = some m → m.StandsIn c.id →
    (m.isPublic = true ↔ c.isPublic = true ∧ isInternalName m.name = false)
  ofConstructor : ∀ c r, a.Holds (.class c) → a.Holds (.function r) → c.constructor? = some r.id →
    r.isPublic = c.isPublic
  /-- Classes and functions stand in the module or class that lists them. -/
  ofListed : ∀ o e m qname, a.Holds o → a.Holds e → e.mark? = some m →
    e.qualifiedName? = some qname → e.ref.kind ≠ .enum → e.ref ∈ o.children → m.StandsIn o.ref.id
  /-- Every row has a path of classes from the module, and attributes are in a class. -/
  hasPath : ∀ e m, a.Holds e → e.mark? = some m → ∃ cs owner,
    a.Leads (Id.ofPath f.path) cs owner ∧ m.StandsIn owner ∧ (cs = [] → e.qualifiedName?.isSome)
  /-- The closed form below a class of the module. -/
  ofPath : ∀ c cs owner e m, a.Leads (Id.ofPath f.path) (c :: cs) owner → a.Holds e →
    e.mark? = some m → m.StandsIn owner →
      (m.isPublic = true ↔ f.PublicInModule index c.name c.qualifiedName
        ∧ (∀ d ∈ cs, isInternalName d.name = false) ∧ isInternalName m.name = false)
  /-- Nothing below a class that is not public is public. -/
  ofHidden : ∀ c cs owner e m, a.Holds (.class c) → c.isPublic = false → a.Leads c.id cs owner →
    a.Holds e → e.mark? = some m → m.StandsIn owner → m.isPublic = false

theorem SourceFile.publicity_model (f : SourceFile) (ctx : ModuleContext) :
    Publicity f ctx.index (f.model ctx) where
  inModule e m qname he hmark hname hid := isPublic_of_module he hmark hname hid
  inClass c e m hc he hmark hid := isPublic_of_class hc he hmark hid
  ofConstructor c r hc hr h := isPublic_of_constructor hc hr h
  ofListed o e m qname ho he hmark hname hkind h := standsIn_of_listed ho he hmark hname hkind h
  hasPath e m he hmark := exists_leads he hmark
  ofPath := by
    rintro c cs owner e m ⟨hc, hcid, hcs⟩ he hmark hid
    rw [isPublic_of_leads hc hcs he hmark hid]
    exact and_congr_left' (isPublic_of_module hc rfl rfl hcid)
  ofHidden := by
    intro c cs owner e m hc hhidden hcs he hmark hid
    rw [Bool.eq_false_iff, Ne, isPublic_of_leads hc hcs he hmark hid, hhidden]
    simp

/-- **The publicity of a file has a closed form.**  Every file has an API model with rows for what
it declares, whatever provider describes them.  What stands in the module is public by the rule of
the module, and what stands deeper if the outermost class around it is and no further name down to
its own is internal. -/
theorem assemble_publicity (f : SourceFile) (index : PackageIndex) (style : DocstringProvider) :
    ∃ a, f.assemble index style = .ok a
      ∧ (∀ kind id, id ∈ (a.ids kind).toList ↔ f.Declares (f.context index style) kind id)
      ∧ Publicity f index a :=
  ⟨_, f.assemble_eq index style, fun _ _ => SourceFile.mem_ids_model,
    f.publicity_model (f.context index style)⟩

end ApiSurface
