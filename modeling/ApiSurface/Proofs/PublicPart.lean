import ApiSurface.Proofs.PackageGraph
/-!
# What the public view consists of

Table by table, the rows of the public view are said here in terms of the rows of the model.  Every
module is in it.  A class is in it if it is public and a module lists it, or a class of the view; so
every class on the way to it is public.  What else modules and classes list is in it if it is
public, and what functions and enums list in any case, as long as it has a row.

A model read from a document need not be closed: a child list may hold ids without a row, ids of
rows that other rows list too, and ids of rows that are not public.  Modules and classes leave out
of their child lists just the ids that the view has no row for, and all else in them stays as it
was.
-/

namespace ApiSurface

/-! ## 1. Restricted rows -/

/-- A module whose child lists keep only ids with a row in a model. -/
def ModuleRow.within (a : Api) (m : ModuleRow) : ModuleRow :=
  { m with
    classes := m.classes.filter a.classes.contains
    functions := m.functions.filter a.functions.contains
    enums := m.enums.filter a.enums.contains }

/-- A class whose child lists keep only ids with a row in a model. -/
def ClassRow.within (a : Api) (c : ClassRow) : ClassRow :=
  { c with
    constructor? := c.constructor?.filter a.functions.contains
    attributes := c.attributes.filter a.attributes.contains
    methods := c.methods.filter a.functions.contains
    classes := c.classes.filter a.classes.contains }

namespace Api

/-! ## 2. The public part of a model -/

/-- That a module lists a class, or a class of which the same holds, and that it is public. -/
inductive ShowsClass (a : Api) : ClassRow → Prop
  | inModule {m : ModuleRow} {c : ClassRow} (hm : a.Holds (.module m)) (hlisted : c.id ∈ m.classes)
      (hc : a.Holds (.class c)) (hpublic : c.isPublic = true) : ShowsClass a c
  | inClass {d c : ClassRow} (hd : ShowsClass a d) (hlisted : c.id ∈ d.classes)
      (hc : a.Holds (.class c)) (hpublic : c.isPublic = true) : ShowsClass a c

/-- That a model is the public part of another. -/
structure PublicPart (a view : Api) : Prop where
  labels : view.distribution = a.distribution ∧ view.package = a.package ∧ view.version = a.version
  modules : ∀ m, view.Holds (.module m) ↔ ∃ m₀, a.Holds (.module m₀) ∧ m = m₀.within view
  classes : ∀ c, view.Holds (.class c) ↔ ∃ c₀, a.ShowsClass c₀ ∧ c = c₀.within view
  functions : ∀ f, view.Holds (.function f) ↔ a.Holds (.function f) ∧ f.isPublic = true
    ∧ ((∃ m, a.Holds (.module m) ∧ f.id ∈ m.functions)
      ∨ ∃ c, a.ShowsClass c ∧ (f.id ∈ c.methods ∨ c.constructor? = some f.id))
  enums : ∀ r, view.Holds (.enum r) ↔ a.Holds (.enum r) ∧ r.isPublic = true
    ∧ ∃ m, a.Holds (.module m) ∧ r.id ∈ m.enums
  attributes : ∀ r, view.Holds (.attribute r) ↔ a.Holds (.attribute r) ∧ r.isPublic = true
    ∧ ∃ c, a.ShowsClass c ∧ r.id ∈ c.attributes
  parameters : ∀ r, view.Holds (.parameter r) ↔ a.Holds (.parameter r)
    ∧ ∃ f, view.Holds (.function f) ∧ r.id ∈ f.parameters
  results : ∀ r, view.Holds (.result r) ↔ a.Holds (.result r)
    ∧ ∃ f, view.Holds (.function f) ∧ r.id ∈ f.results
  instances : ∀ r, view.Holds (.enumInstance r) ↔ a.Holds (.enumInstance r)
    ∧ ∃ e, view.Holds (.enum e) ∧ r.id ∈ e.instances

/-! ## 3. Offered rows by kind -/

section Kinds

variable {a : Api}

/-- An offered row that is no module has an open row and is listed by an offered one. -/
theorem offered_iff {e : Entity} (hkind : e.ref.kind ≠ .module) :
    a.Offered e ↔ a.Holds e ∧ e.isOpen = true ∧ ∃ e', a.Offered e' ∧ e.ref ∈ e'.children := by
  rw [offered_iff_listed hkind, open?_eq_some]
  constructor
  · rintro ⟨hlisted, he, -, hopen⟩
    exact ⟨he, hopen, hlisted⟩
  · rintro ⟨he, hopen, hlisted⟩
    exact ⟨hlisted, he, rfl, hopen⟩

theorem offered_class_iff {c : ClassRow} : a.Offered (.class c) ↔ a.ShowsClass c := by
  constructor
  · intro h
    -- Only modules and classes stand on the way to a class.
    generalize he : Entity.class c = e at h
    induction h generalizing c with
    | module => cases he
    | @child e' _ hparent hc hlisted hpublic ih =>
      subst he
      cases e' with
      | module m =>
        have hlisted : c.id ∈ m.classes := by simpa [Entity.children, Entity.ref] using hlisted
        exact .inModule hparent.holds hlisted hc hpublic
      | «class» d =>
        have hlisted : c.id ∈ d.classes := by simpa [Entity.children, Entity.ref] using hlisted
        exact .inClass (ih rfl) hlisted hc hpublic
      | function | enum | parameter | «attribute» | result | enumInstance =>
        simp [Entity.children, Entity.ref] at hlisted
  · intro h
    induction h with
    | inModule hm hlisted hc hpublic =>
      exact .child (.module hm) hc (by simp [Entity.children, Entity.ref, hlisted]) hpublic
    | inClass _ hlisted hc hpublic ih =>
      exact .child ih hc (by simp [Entity.children, Entity.ref, hlisted]) hpublic

theorem offered_function_iff {f : FunctionRow} :
    a.Offered (.function f) ↔ a.Holds (.function f) ∧ f.isPublic = true
      ∧ ((∃ m, a.Holds (.module m) ∧ f.id ∈ m.functions)
        ∨ ∃ c, a.ShowsClass c ∧ (f.id ∈ c.methods ∨ c.constructor? = some f.id)) := by
  rw [offered_iff (by simp [Entity.ref])]
  refine and_congr_right fun _ => and_congr_right fun _ => ?_
  constructor
  · rintro ⟨e, he, hlisted⟩
    cases e with
    | module m => exact .inl ⟨m, he.holds, by simpa [Entity.children, Entity.ref] using hlisted⟩
    | «class» c =>
      exact .inr ⟨c, offered_class_iff.1 he, by simpa [Entity.children, Entity.ref] using hlisted⟩
    | function | enum | parameter | «attribute» | result | enumInstance =>
      simp [Entity.children, Entity.ref] at hlisted
  · rintro (⟨m, hm, hlisted⟩ | ⟨c, hc, hlisted⟩)
    · exact ⟨.module m, .module hm, by simpa [Entity.children, Entity.ref] using hlisted⟩
    · exact ⟨.class c, offered_class_iff.2 hc, by simpa [Entity.children, Entity.ref] using hlisted⟩

/-- What only rows of one kind list is offered if one of those does. -/
theorem offered_iff_of_lister {ρ : Type} {mk : ρ → Entity} {p : ρ → Prop} {e : Entity}
    (hkind : e.ref.kind ≠ .module) (hlister : ∀ e', e.ref ∈ e'.children ↔ ∃ r, e' = mk r ∧ p r) :
    a.Offered e ↔ a.Holds e ∧ e.isOpen = true ∧ ∃ r, a.Offered (mk r) ∧ p r := by
  rw [offered_iff hkind]
  refine and_congr_right fun _ => and_congr_right fun _ => ?_
  constructor
  · rintro ⟨e', he', hlisted⟩
    obtain ⟨r, rfl, hr⟩ := (hlister e').1 hlisted
    exact ⟨r, he', hr⟩
  · rintro ⟨r, hr, hp⟩
    exact ⟨mk r, hr, (hlister _).2 ⟨r, rfl, hp⟩⟩

theorem offered_enum_iff {r : EnumRow} :
    a.Offered (.enum r) ↔ a.Holds (.enum r) ∧ r.isPublic = true
      ∧ ∃ m, a.Offered (.module m) ∧ r.id ∈ m.enums := by
  refine offered_iff_of_lister (by simp [Entity.ref]) fun e => ?_
  cases e <;> simp [Entity.children, Entity.ref]

theorem offered_attribute_iff {r : AttributeRow} :
    a.Offered (.attribute r) ↔ a.Holds (.attribute r) ∧ r.isPublic = true
      ∧ ∃ c, a.Offered (.class c) ∧ r.id ∈ c.attributes := by
  refine offered_iff_of_lister (by simp [Entity.ref]) fun e => ?_
  cases e <;> simp [Entity.children, Entity.ref]

theorem offered_parameter_iff {r : ParameterRow} :
    a.Offered (.parameter r) ↔ a.Holds (.parameter r)
      ∧ ∃ f, a.Offered (.function f) ∧ r.id ∈ f.parameters := by
  refine (offered_iff_of_lister (by simp [Entity.ref]) fun e => ?_).trans
    (and_congr_right' (and_iff_right rfl))
  cases e <;> simp [Entity.children, Entity.ref]

theorem offered_result_iff {r : ResultRow} :
    a.Offered (.result r) ↔ a.Holds (.result r)
      ∧ ∃ f, a.Offered (.function f) ∧ r.id ∈ f.results := by
  refine (offered_iff_of_lister (by simp [Entity.ref]) fun e => ?_).trans
    (and_congr_right' (and_iff_right rfl))
  cases e <;> simp [Entity.children, Entity.ref]

theorem offered_enumInstance_iff {r : EnumInstanceRow} :
    a.Offered (.enumInstance r) ↔ a.Holds (.enumInstance r)
      ∧ ∃ e, a.Offered (.enum e) ∧ r.id ∈ e.instances := by
  refine (offered_iff_of_lister (by simp [Entity.ref]) fun e => ?_).trans
    (and_congr_right' (and_iff_right rfl))
  cases e <;> simp [Entity.children, Entity.ref]

end Kinds

/-! ## 4. Shrunk rows are restricted to the view -/

section Shrunk

variable {a view : Api} (hview : a.publicView? = some view)

include hview

/-- Of the references in an offered row, the view has rows for the open ones. -/
theorem isOpenAt_eq_contains {ρ : Type} [HasId ρ] {t : Table ρ} (kind : EntityKind)
    (hids : view.ids kind = t.keys) {e : Entity} (he : a.Offered e) {id : String}
    (hlisted : ⟨kind, id⟩ ∈ e.children) : a.isOpenAt ⟨kind, id⟩ = t.contains id := by
  rw [Bool.eq_iff_iff, isOpenAt_iff, Table.contains_iff, ← hids, mem_ids_iff (r := ⟨kind, id⟩)]
  constructor
  · rintro ⟨e', he', href, hopen⟩
    have hoffered : a.Offered e' := .child he he' (href ▸ hlisted) hopen
    exact ⟨e'.shrink a, (holds_publicView hview).2 ⟨e', hoffered, rfl⟩, by simpa using href⟩
  · rintro ⟨_, hshrunk, href⟩
    obtain ⟨e', he', rfl⟩ := (holds_publicView hview).1 hshrunk
    rw [Entity.shrink_ref] at href
    rw [← href] at hlisted
    obtain ⟨hholds, hopen, -⟩ := (offered_iff (Entity.kind_of_mem_children hlisted)).1 he'
    exact ⟨e', hholds, href, hopen⟩

/-- Keeping the open ids of a child list is keeping those that the view has rows for. -/
theorem filter_isOpenAt_eq {ρ : Type} [HasId ρ] {t : Table ρ} (kind : EntityKind)
    (hids : view.ids kind = t.keys) {e : Entity} (he : a.Offered e) {ids : List String}
    (hlisted : ∀ id ∈ ids, ⟨kind, id⟩ ∈ e.children) :
    ids.filter (fun id => a.isOpenAt ⟨kind, id⟩) = ids.filter t.contains :=
  List.filter_congr fun id hid => isOpenAt_eq_contains hview kind hids he (hlisted id hid)

theorem shrinkModule_eq_within {m : ModuleRow} (hm : a.Holds (.module m)) :
    a.shrinkModule m = m.within view := by
  have hoffered : a.Offered (.module m) := .module hm
  have hclasses := filter_isOpenAt_eq hview (t := view.classes) .class rfl hoffered
    fun id (hid : id ∈ m.classes) => by simp [Entity.children, hid]
  have hfunctions := filter_isOpenAt_eq hview (t := view.functions) .function rfl hoffered
    fun id (hid : id ∈ m.functions) => by simp [Entity.children, hid]
  have henums := filter_isOpenAt_eq hview (t := view.enums) .enum rfl hoffered
    fun id (hid : id ∈ m.enums) => by simp [Entity.children, hid]
  simp only [isOpenAt, open?, Option.isSome_map] at hclasses hfunctions henums
  rw [shrinkModule, ModuleRow.within, hclasses, hfunctions, henums]

theorem shrinkClass_eq_within {c : ClassRow} (hc : a.Offered (.class c)) :
    a.shrinkClass c = c.within view := by
  have hconstructor : c.constructor?.filter (fun id => a.isOpenAt ⟨.function, id⟩)
      = c.constructor?.filter view.functions.contains := by
    cases hid : c.constructor? with
    | none => rfl
    | some id =>
      have hlisted : ⟨.function, id⟩ ∈ (Entity.class c).children := by simp [Entity.children, hid]
      rw [Option.filter_some, Option.filter_some,
        isOpenAt_eq_contains hview (t := view.functions) .function rfl hc hlisted]
  have hattributes := filter_isOpenAt_eq hview (t := view.attributes) .attribute rfl hc
    fun id (hid : id ∈ c.attributes) => by simp [Entity.children, hid]
  have hmethods := filter_isOpenAt_eq hview (t := view.functions) .function rfl hc
    fun id (hid : id ∈ c.methods) => by simp [Entity.children, hid]
  have hclasses := filter_isOpenAt_eq hview (t := view.classes) .class rfl hc
    fun id (hid : id ∈ c.classes) => by simp [Entity.children, hid]
  simp only [isOpenAt, open?, Option.isSome_map] at hconstructor hattributes hmethods hclasses
  rw [shrinkClass, ClassRow.within, hconstructor, hattributes, hmethods, hclasses]

theorem holds_view_iff {e : Entity} (hmodule : e.ref.kind ≠ .module)
    (hclass : e.ref.kind ≠ .class) : view.Holds e ↔ a.Offered e := by
  rw [holds_publicView hview, Entity.exists_shrink_eq hmodule hclass]

theorem holds_function_view_iff {f : FunctionRow} :
    view.Holds (.function f) ↔ a.Offered (.function f) :=
  holds_view_iff hview (by simp [Entity.ref]) (by simp [Entity.ref])

theorem holds_enum_view_iff {r : EnumRow} : view.Holds (.enum r) ↔ a.Offered (.enum r) :=
  holds_view_iff hview (by simp [Entity.ref]) (by simp [Entity.ref])

theorem publicPart_of_publicView : a.PublicPart view where
  labels := by
    obtain ⟨classes, -, rfl⟩ := Option.map_eq_some_iff.1 hview
    exact ⟨rfl, rfl, rfl⟩
  modules m := by
    rw [holds_publicView hview]
    constructor
    · rintro ⟨e₀, he₀, heq⟩
      cases e₀ <;> cases heq
      exact ⟨_, he₀.holds, shrinkModule_eq_within hview he₀.holds⟩
    · rintro ⟨m₀, hm₀, rfl⟩
      exact ⟨.module m₀, .module hm₀, congrArg Entity.module (shrinkModule_eq_within hview hm₀)⟩
  classes c := by
    rw [holds_publicView hview]
    constructor
    · rintro ⟨e₀, he₀, heq⟩
      cases e₀ <;> cases heq
      exact ⟨_, offered_class_iff.1 he₀, shrinkClass_eq_within hview he₀⟩
    · rintro ⟨c₀, hc₀, rfl⟩
      have hoffered := offered_class_iff.2 hc₀
      exact ⟨.class c₀, hoffered, congrArg Entity.class (shrinkClass_eq_within hview hoffered)⟩
  functions f := by
    rw [holds_function_view_iff hview, offered_function_iff]
  enums r := by
    rw [holds_enum_view_iff hview, offered_enum_iff]
    simp only [← mem_modules_iff, Holds]
  attributes r := by
    rw [holds_view_iff hview (by simp [Entity.ref]) (by simp [Entity.ref]), offered_attribute_iff]
    simp only [offered_class_iff]
  parameters r := by
    rw [holds_view_iff hview (by simp [Entity.ref]) (by simp [Entity.ref]), offered_parameter_iff]
    simp only [holds_function_view_iff hview]
  results r := by
    rw [holds_view_iff hview (by simp [Entity.ref]) (by simp [Entity.ref]), offered_result_iff]
    simp only [holds_function_view_iff hview]
  instances r := by
    rw [holds_view_iff hview (by simp [Entity.ref]) (by simp [Entity.ref]),
      offered_enumInstance_iff]
    simp only [holds_enum_view_iff hview]

/-- The view of a nested model has no circles either, though its rows are others. -/
theorem Nested.acyclic_publicView (h : a.Nested) : view.Acyclic := by
  refine acyclic_of_longer ?_
  rintro c d ⟨hc, -, hid⟩
  obtain ⟨c₀, hc₀, rfl⟩ := ((publicPart_of_publicView hview).classes c).1 hc
  exact h.length_lt (offered_class_iff.2 hc₀).holds (List.mem_filter.1 hid).1

end Shrunk

end Api

/-! ## 5. The view -/

theorem analyze_acyclic (files : List SourceFile) (o : Options) :
    ∃ api, analyze files o = .ok api ∧ api.Acyclic := by
  have hnested := modelOf_nested (selectFiles o.package files) o
  obtain ⟨view, hview, hanalyze⟩ := analyze_eq_view files o
  refine ⟨_, hanalyze, ?_⟩
  cases o.publicOnly with
  | false => exact hnested.acyclic
  | true => exact hnested.acyclic_publicView hview

/-- **The public view, table by table.**  A model whose classes are not nested in a circle has a
public view, and the view is the public part of the model.  The models of packages are of this
kind. -/
theorem publicView_exact :
    (∀ a : Api, a.Acyclic → ∃ view, a.publicView? = some view ∧ a.PublicPart view)
      ∧ ∀ files o, ∃ api, analyze files o = .ok api ∧ api.Acyclic := by
  refine ⟨fun a h => ?_, analyze_acyclic⟩
  obtain ⟨view, hview⟩ := h.exists_publicView
  exact ⟨view, hview, Api.publicPart_of_publicView hview⟩

namespace Sample

/-- A class with other classes in it, and a method without a row. -/
def nesting (id name : String) (isPublic : Bool) (classes : List String) : ClassRow where
  id := id
  name := name
  qualifiedName := name
  superclasses := []
  isPublic := isPublic
  isException := false
  docstring := ⟨"", ""⟩
  constructor? := none
  constructorFullDocstring := ""
  attributes := []
  methods := ["gone"]
  classes := classes
  typeParameters := []
  reexportedBy := []

/-- Two modules that list one class, which holds a public class, a private one and one without a
row; in the private one there is a public class again. -/
def tangled : Api where
  modules := .ofList [⟨"m", "m", "", [], [], ["m/C", "m/Gone"], [], []⟩,
    ⟨"n", "n", "", [], [], ["m/C"], [], []⟩]
  classes := .ofList [nesting "m/C" "C" true ["m/C/D", "m/C/_E", "m/C/Gone"],
    nesting "m/C/D" "D" true [], nesting "m/C/_E" "_E" false ["m/C/_E/F"],
    nesting "m/C/_E/F" "F" true []]

theorem tangled_public :
    tangled.Acyclic ∧ ∃ view, tangled.publicView? = some view ∧ tangled.PublicPart view := by
  have hlonger : ∀ c ∈ tangled.classes.toList, ∀ d ∈ tangled.classes.toList, d.id ∈ c.classes →
      c.id.toList.length < d.id.toList.length := by decide +kernel
  have hacyclic : tangled.Acyclic :=
    Api.acyclic_of_longer fun c d h => hlonger c h.1 d h.2.1 h.2.2
  exact ⟨hacyclic, publicView_exact.1 tangled hacyclic⟩

end Sample

end ApiSurface
