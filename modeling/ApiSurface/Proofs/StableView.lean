import ApiSurface.Proofs.ViewDescent
/-!
# The view of the view

Taking the public view a second time changes nothing.  Three facts make this up, for a model that
need not be closed and may list a row in several places: what is offered in the model is offered in
the view, through the shrunk rows above it (`Offered.shrink`); a row that has been shrunk once lists
nothing that a second time would leave out (`shrink_shrink`); and going down in the view is going
down in the model, so that the descent ends there too (`DescentEnds.publicView`).

The view also adds no dangling references.  Those that it has stand in functions and enums, which it
keeps as they are.
-/

namespace ApiSurface

namespace Api

/-- Models with the same labels and the same rows are equal. -/
theorem eq_of_holds_iff {a b : Api}
    (hlabels : a.distribution = b.distribution ∧ a.package = b.package ∧ a.version = b.version)
    (h : ∀ e, a.Holds e ↔ b.Holds e) : a = b := by
  have hmodules : a.modules = b.modules := Ascending.ext_mem fun r => h (.module r)
  have hclasses : a.classes = b.classes := Ascending.ext_mem fun r => h (.class r)
  have hfunctions : a.functions = b.functions := Ascending.ext_mem fun r => h (.function r)
  have hparameters : a.parameters = b.parameters := Ascending.ext_mem fun r => h (.parameter r)
  have hattributes : a.attributes = b.attributes := Ascending.ext_mem fun r => h (.attribute r)
  have hresults : a.results = b.results := Ascending.ext_mem fun r => h (.result r)
  have henums : a.enums = b.enums := Ascending.ext_mem fun r => h (.enum r)
  have hinstances : a.enumInstances = b.enumInstances :=
    Ascending.ext_mem fun r => h (.enumInstance r)
  obtain ⟨hdistribution, hpackage, hversion⟩ := hlabels
  cases a
  cases b
  simp only [Api.mk.injEq]
  exact ⟨hdistribution, hpackage, hversion, hmodules, hclasses, hfunctions, hparameters,
    hattributes, hresults, henums, hinstances⟩

/-! ## 1. Rows that have been shrunk -/

/-- A row that lists only what stays is not changed by shrinking. -/
theorem shrink_eq_self {a : Api} {e : Entity} (h : ∀ r ∈ e.children, a.staysIn r = true) :
    e.shrink a = e := by
  have hfilter : ∀ {kind : EntityKind} {ids : List String} {p : String → Bool},
      (∀ id, p id = a.staysIn ⟨kind, id⟩) → (∀ id ∈ ids, ⟨kind, id⟩ ∈ e.children) →
        ids.filter p = ids := by
    intro kind ids p hp hids
    exact List.filter_eq_self.2 fun id hid => (hp id).trans (h _ (hids id hid))
  cases e with
  | module m =>
    rw [Entity.shrink, shrinkModule,
      hfilter a.isSome_publicClass? fun id hid => by simp [Entity.children, hid],
      hfilter a.isSome_publicFunction? fun id hid => by simp [Entity.children, hid],
      hfilter a.isSome_publicEnum? fun id hid => by simp [Entity.children, hid]]
  | «class» c =>
    have hconstructor : (c.constructor?.filter fun id => (a.publicFunction? id).isSome)
        = c.constructor? := by
      cases hid : c.constructor? with
      | none => rfl
      | some id =>
        have hstays : a.staysIn ⟨.function, id⟩ = true := h _ (by simp [Entity.children, hid])
        rw [Option.filter_some, isSome_publicFunction?, if_pos hstays]
    rw [Entity.shrink, shrinkClass, hconstructor,
      hfilter a.isSome_publicAttribute? fun id hid => by simp [Entity.children, hid],
      hfilter a.isSome_publicFunction? fun id hid => by simp [Entity.children, hid],
      hfilter a.isSome_publicClass? fun id hid => by simp [Entity.children, hid]]
  | function | enum | parameter | «attribute» | result | enumInstance => rfl

section View

variable {a view : Api} (hview : a.publicView? = some view)

include hview

/-- What is offered in the model is offered in the view. -/
theorem Offered.shrink {e : Entity} (h : a.Offered e) : view.Offered (e.shrink a) := by
  induction h with
  | @module m hm => exact .module ((holds_publicView hview).2 ⟨.module m, .module hm, rfl⟩)
  | @child e e' hparent he' hlisted hopen ih =>
    have hrow : view.Holds (e'.shrink a) :=
      (holds_publicView hview).2 ⟨e', .child hparent he' hlisted hopen, rfl⟩
    have hstays : a.staysIn e'.ref = true := by
      rw [staysIn, isOpenAt_iff.2 ⟨e', he', rfl, hopen⟩, Bool.true_or]
    refine .child ih hrow ?_ (by rwa [Entity.isOpen_shrink])
    rw [Entity.shrink_ref, shrink_children]
    exact List.mem_filter.2 ⟨hlisted, hstays⟩

/-- What stays in an offered row of the model stays in the view. -/
theorem staysIn_publicView {e : Entity} (he : a.Offered e) {r : Ref} (hlisted : r ∈ e.children)
    (hstays : a.staysIn r = true) : view.staysIn r = true := by
  rw [staysIn, Bool.or_eq_true] at hstays ⊢
  refine hstays.imp_left fun hopen => ?_
  obtain ⟨e', he', rfl, hmark⟩ := isOpenAt_iff.1 hopen
  have hoffered : a.Offered e' := .child he he' hlisted hmark
  exact isOpenAt_iff.2 ⟨e'.shrink a, (hoffered.shrink hview).holds, by simp, by simpa using hmark⟩

theorem shrink_shrink {e : Entity} (he : a.Offered e) : (e.shrink a).shrink view = e.shrink a := by
  refine shrink_eq_self fun r hr => ?_
  rw [shrink_children, List.mem_filter] at hr
  exact staysIn_publicView hview he hr.1 hr.2

/-! ## 2. The second view -/

/-- The descent ends in the view: it goes on there only where it goes on in the model. -/
theorem DescentEnds.publicView (h : a.DescentEnds) : view.DescentEnds := by
  have hsub : Subrelation view.DescendsTo a.DescendsTo := by
    rintro id' id ⟨c, hc, hid'⟩
    obtain ⟨⟨hmem, rfl⟩, hpublic⟩ := publicClass?_eq_some.1 hc
    obtain ⟨e₀, he₀, heq⟩ := (holds_publicView hview (e := .class c)).1 hmem
    cases e₀ <;> cases heq
    rename_i c₀
    exact ⟨c₀, publicClass?_eq_some.2 ⟨⟨he₀.holds, rfl⟩, hpublic⟩, (List.mem_filter.1 hid').1⟩
  intro m hm id hid
  obtain ⟨e₀, he₀, heq⟩ := (holds_publicView hview).1 hm
  cases e₀ <;> cases heq
  exact hsub.accessible (h _ he₀.holds id (List.mem_filter.1 hid).1)

/-- The rows of the second view are those of the first. -/
theorem holds_second_publicView {view' : Api} (hview' : view.publicView? = some view')
    (e : Entity) : view'.Holds e ↔ view.Holds e := by
  rw [holds_publicView hview']
  constructor
  · rintro ⟨e₁, he₁, rfl⟩
    obtain ⟨e₀, he₀, rfl⟩ := (holds_publicView hview).1 he₁.holds
    rw [shrink_shrink hview he₀]
    exact he₁.holds
  · intro he
    obtain ⟨e₀, he₀, rfl⟩ := (holds_publicView hview).1 he
    exact ⟨e₀.shrink a, he₀.shrink hview, shrink_shrink hview he₀⟩

/-- The view is its own view. -/
theorem publicView_publicView : view.publicView? = some view := by
  have hends := (exists_publicView_iff.1 ⟨view, hview⟩).publicView hview
  obtain ⟨view', hview'⟩ := exists_publicView_iff.2 hends
  have heq : view' = view :=
    eq_of_holds_iff (publicPart_of_publicView hview').labels (holds_second_publicView hview hview')
  rw [hview', heq]

/-! ## 3. Dangling references -/

/-- A reference in the view that has no row there has none in the model. -/
theorem danglingReferences_publicView : view.danglingReferences ⊆ a.danglingReferences := by
  intro id hid
  obtain ⟨e, he, r, hr, rfl, hmissing⟩ := mem_danglingReferences.1 hid
  obtain ⟨e₀, he₀, rfl⟩ := (holds_publicView hview).1 he
  rw [shrink_children, List.mem_filter] at hr
  refine mem_danglingReferences.2 ⟨e₀, he₀.holds, r, hr.1, rfl, fun hrow => hmissing ?_⟩
  have hopen : a.isOpenAt r = true := staysIn_eq_isOpenAt hrow ▸ hr.2
  obtain ⟨e', he', rfl, hmark⟩ := isOpenAt_iff.1 hopen
  have hoffered : a.Offered e' := .child he₀ he' hr.1 hmark
  exact mem_ids_iff.2 ⟨e'.shrink a, (hoffered.shrink hview).holds, Entity.shrink_ref a e'⟩

end View

end Api

/-- **The public view is final and adds no dangling references.**  A model whose classes are not
nested in a circle has a public view; that view is its own public view, and what dangles in it
dangles in the model.  So the view of a model without dangling references has none. -/
theorem publicView_final (a : Api) (h : a.Acyclic) :
    ∃ view, a.publicView? = some view ∧ view.publicView? = some view
      ∧ view.danglingReferences ⊆ a.danglingReferences
      ∧ (a.danglingReferences = [] → view.danglingReferences = []) := by
  obtain ⟨view, hview⟩ := h.exists_publicView
  have hsub := Api.danglingReferences_publicView hview
  exact ⟨view, hview, Api.publicView_publicView hview, hsub,
    fun hnone => List.subset_nil.1 (hnone ▸ hsub)⟩

namespace Sample

/-- The method that the classes list, which is not public. -/
def hiddenMethod : FunctionRow where
  id := "gone"
  name := "gone"
  qualifiedName := "gone"
  isPublic := false
  isStatic := false
  isClassMethod := false
  isProperty := false
  docstring := ⟨"", ""⟩
  parameters := []
  results := []
  typeVarTypes := .empty
  reexportedBy := []

/-- Two modules that list one class, in which there are a public class and a private one; in the
private one there is a public class again.  Every id has a row. -/
def settled : Api where
  modules := .ofList [⟨"m", "m", "", [], [], ["m/C"], [], []⟩,
    ⟨"n", "n", "", [], [], ["m/C"], ["gone"], []⟩]
  classes := .ofList [nesting "m/C" "C" true ["m/C/D", "m/C/_E"],
    nesting "m/C/D" "D" true [], nesting "m/C/_E" "_E" false ["m/C/_E/F"],
    nesting "m/C/_E/F" "F" true []]
  functions := .ofList [hiddenMethod]

theorem settled_view_final :
    settled.Acyclic ∧ settled.danglingReferences = []
      ∧ ∃ view, settled.publicView? = some view ∧ view.publicView? = some view
        ∧ view.danglingReferences = [] := by
  have hlonger : ∀ c ∈ settled.classes.toList, ∀ d ∈ settled.classes.toList, d.id ∈ c.classes →
      c.id.toList.length < d.id.toList.length := by decide +kernel
  have hacyclic : settled.Acyclic :=
    Api.acyclic_of_longer fun c d h => hlonger c h.1 d h.2.1 h.2.2
  have hclosed : settled.danglingReferences = [] := by decide +kernel
  obtain ⟨view, hview, hagain, -, hnone⟩ := publicView_final settled hacyclic
  exact ⟨hacyclic, hclosed, view, hview, hagain, hnone hclosed⟩

end Sample

end ApiSurface
