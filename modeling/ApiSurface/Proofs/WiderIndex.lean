import ApiSurface.Proofs.ReexportAgreement
import Mathlib.Data.List.Forall2
/-!
# A wider index

Two walks over one file, with different indexes of the package.  Types may come out differently, for
names may have another meaning, and so may the number of results.  Classes, functions, enums and
attributes depend on the index by their marks and by the package entries that they name, and on
nothing else.

So the walks go side by side.  They keep the same declarations, in scopes that differ only in what
the class around them is marked as (`Scope.AtMost`), and add marked rows in the same order
(`Aligned`).  If one index finds no more than the other, neither a row nor a scope is more public in
the first walk than in the second; and since rows with the same reference come in the same order,
the same of them are the first and stay (`AtMost.foldl_add`).
-/

namespace ApiSurface

/-! ## 1. Wider indexes -/

/-- That a container is public only if another is, both being modules of one name or classes. -/
def Container.AtMost : Container → Container → Prop
  | .module fullname, .module fullname' => fullname = fullname'
  | .class isPublic, .class isPublic' => isPublic = true → isPublic' = true
  | _, _ => False

namespace PackageIndex

/-- That an index finds no more reexports than another. -/
def AtMost (ix ix' : PackageIndex) : Prop :=
  ∀ qname, ix.reexports.query qname ⊆ ix'.reexports.query qname

variable {ix ix' : PackageIndex} {name qname : String}

theorem AtMost.offersPublicly (h : ix.AtMost ix') (hoffers : ix.offersPublicly name qname = true) :
    ix'.offersPublicly name qname = true := by
  obtain ⟨e, he, hname⟩ := List.any_eq_true.1 hoffers
  exact List.any_eq_true.2 ⟨e, h qname he, hname⟩

theorem AtMost.reexportedBy (h : ix.AtMost ix') (qname : String) :
    ix.reexportedBy qname ⊆ ix'.reexportedBy qname := by
  intro id hid
  rw [PackageIndex.reexportedBy, NameSet.mem_ofList] at hid ⊢
  exact List.map_subset _ (h qname) hid

theorem AtMost.isPublic (h : ix.AtMost ix') {place place' : Container}
    (hplace : place.AtMost place') (hpublic : ix.isPublic name qname place = true) :
    ix'.isPublic name qname place' = true := by
  cases place with
  | module fullname =>
    cases place' with
    | module =>
      cases hplace
      rw [PackageIndex.isPublic, Bool.or_eq_true] at hpublic ⊢
      exact hpublic.imp_left h.offersPublicly
    | «class» => cases hplace
  | «class» isPublic =>
    cases place' with
    | module => cases hplace
    | «class» =>
      rw [PackageIndex.isPublic, Bool.and_eq_true] at hpublic ⊢
      exact ⟨hplace hpublic.1, hpublic.2⟩

end PackageIndex

/-- What was recorded for one index and for another as well is found in both. -/
theorem Collection.atMost {c d : Collection} (h : ∀ e ∈ c.entries, e ∈ d.entries) :
    c.index.AtMost d.index := by
  intro qname e he
  obtain ⟨hmem, hdenotes⟩ := (c.stores.mem_query qname e).1 he
  exact (d.stores.mem_query qname e).2 ⟨h e hmem, hdenotes⟩

/-! ## 2. Rows side by side -/

/-- Whether entities of a kind are marked as public or not. -/
def EntityKind.isMarked : EntityKind → Bool
  | .class | .function | .enum | .attribute => true
  | .module | .parameter | .result | .enumInstance => false

/-- That a row stands for the same entity as another, is public only if the other is and names no
package entries but those that the other names. -/
structure Entity.AtMost (e e' : Entity) : Prop where
  ref : e.ref = e'.ref
  isPublic : ∀ m m', e.mark? = some m → e'.mark? = some m' → m.isPublic = true → m'.isPublic = true
  reexportedBy : ∀ ids ids', e.reexportedBy? = some ids → e'.reexportedBy? = some ids' → ids ⊆ ids'

/-- That the marked rows of two lists correspond one by one. -/
inductive Aligned : List Entity → List Entity → Prop
  | nil : Aligned [] []
  | cons {e e' : Entity} {es es' : List Entity} (he : e.AtMost e') (h : Aligned es es') :
      Aligned (e :: es) (e' :: es')
  | left {e : Entity} {es es' : List Entity} (he : e.ref.kind.isMarked = false)
      (h : Aligned es es') : Aligned (e :: es) es'
  | right {e' : Entity} {es es' : List Entity} (he' : e'.ref.kind.isMarked = false)
      (h : Aligned es es') : Aligned es (e' :: es')

namespace Aligned

variable {es es' fs fs' : List Entity}

theorem append (h : Aligned es es') (h' : Aligned fs fs') : Aligned (es ++ fs) (es' ++ fs') := by
  induction h with
  | nil => exact h'
  | cons he _ ih => exact .cons he ih
  | left he _ ih => exact .left he ih
  | right he' _ ih => exact .right he' ih

theorem singleton {e e' : Entity} (h : e.AtMost e') : Aligned [e] [e'] := .cons h .nil

theorem of_unmarked (h : ∀ e ∈ es, e.ref.kind.isMarked = false)
    (h' : ∀ e ∈ es', e.ref.kind.isMarked = false) : Aligned es es' := by
  induction es with
  | nil =>
    induction es' with
    | nil => exact .nil
    | cons e' es' ih => exact .right (h' e' (by simp)) (ih fun e he => h' e (by simp [he]))
  | cons e es ih => exact .left (h e (by simp)) (ih fun e he => h e (by simp [he]))

theorem map {α : Type} {g g' : α → Entity} (h : ∀ a, (g a).AtMost (g' a)) (l : List α) :
    Aligned (l.map g) (l.map g') := by
  induction l with
  | nil => exact .nil
  | cons a l ih => exact .cons (h a) ih

end Aligned

/-! ## 3. Models side by side -/

/-- That two models have marked rows for the same entities, and those of the first are at most what
those of the second are. -/
structure Api.AtMost (a b : Api) : Prop where
  ids : ∀ kind, kind.isMarked = true → a.ids kind = b.ids kind
  rows : ∀ e e', a.Holds e → b.Holds e' → e.ref = e'.ref → e.ref.kind.isMarked = true → e.AtMost e'

namespace Api

variable {a b : Api}

theorem mem_ids_add {x : Entity} {kind : EntityKind} {id : String} :
    id ∈ ((a.add x).ids kind).toList ↔ id ∈ (a.ids kind).toList ∨ ⟨kind, id⟩ = x.ref := by
  have hstep : a.add x = a.merge (({} : Api).add x) := foldl_add_eq [x] a
  have hrow : id ∈ ((({} : Api).add x).ids kind).toList ↔ ⟨kind, id⟩ = x.ref := by
    refine (mem_ids_iff (r := ⟨kind, id⟩)).trans ?_
    simp only [holds_add_empty, exists_eq_left]
    exact eq_comm
  rw [hstep, mem_ids_merge, hrow]

/-- Adding a row that is not marked changes none of the marked ones. -/
theorem holds_add_of_unmarked {x e : Entity} (hx : x.ref.kind.isMarked = false)
    (he : e.ref.kind.isMarked = true) : (a.add x).Holds e ↔ a.Holds e := by
  rw [holds_add]
  refine or_iff_left ?_
  rintro ⟨rfl, -⟩
  rw [hx] at he
  cases he

theorem ids_add_of_unmarked {x : Entity} {kind : EntityKind} (hx : x.ref.kind.isMarked = false)
    (hkind : kind.isMarked = true) : (a.add x).ids kind = a.ids kind := by
  refine Ascending.ext_mem fun id => ?_
  rw [mem_ids_add]
  refine or_iff_left fun href => ?_
  rw [← href, hkind] at hx
  cases hx

namespace AtMost

theorem add_left (h : a.AtMost b) {x : Entity} (hx : x.ref.kind.isMarked = false) :
    (a.add x).AtMost b where
  ids kind hkind := (ids_add_of_unmarked hx hkind).trans (h.ids kind hkind)
  rows e e' he he' href hkind := h.rows e e' ((holds_add_of_unmarked hx hkind).1 he) he' href hkind

theorem add_right (h : a.AtMost b) {x : Entity} (hx : x.ref.kind.isMarked = false) :
    a.AtMost (b.add x) where
  ids kind hkind := (h.ids kind hkind).trans (ids_add_of_unmarked hx hkind).symm
  rows e e' he he' href hkind :=
    h.rows e e' he ((holds_add_of_unmarked hx (href ▸ hkind)).1 he') href hkind

/-- Of two rows that correspond, both are added or none. -/
theorem add (h : a.AtMost b) {x x' : Entity} (hx : x.AtMost x') : (a.add x).AtMost (b.add x') where
  ids kind hkind := by
    refine Ascending.ext_mem fun id => ?_
    rw [mem_ids_add, mem_ids_add, h.ids kind hkind, hx.ref]
  rows e e' he he' href hkind := by
    have hid : ∀ {c : Api} {d : Entity}, c.Holds d → d.ref.id ∈ (c.ids d.ref.kind).toList :=
      fun hd => mem_ids_iff.2 ⟨_, hd, rfl⟩
    rcases holds_add.1 he with he | ⟨rfl, hnew⟩ <;> rcases holds_add.1 he' with he' | ⟨rfl, hnew'⟩
    · exact h.rows e e' he he' href hkind
    · refine absurd ?_ hnew'
      rw [← href, ← h.ids _ hkind]
      exact hid he
    · refine absurd ?_ hnew
      rw [h.ids _ hkind, href]
      exact hid he'
    · exact hx

theorem foldl_add (h : a.AtMost b) {es es' : List Entity} (hes : Aligned es es') :
    (es.foldl Api.add a).AtMost (es'.foldl Api.add b) := by
  induction hes generalizing a b with
  | nil => exact h
  | cons he _ ih => exact ih (h.add he)
  | left he _ ih => exact ih (h.add_left he)
  | right he' _ ih => exact ih (h.add_right he')

theorem empty : ({} : Api).AtMost {} :=
  ⟨fun _ _ => rfl, fun e _ he => absurd he (not_holds_empty e)⟩

end AtMost

end Api

/-! ## 4. Members side by side -/

/-- That scopes differ at most in that the second is public and the first is not. -/
structure Scope.AtMost (scope scope' : Scope) : Prop where
  id : scope.id = scope'.id
  place : scope.place.AtMost scope'.place

/-- That classes in progress differ in their marks at most. -/
structure ClassFrame.AtMost (f f' : ClassFrame) : Prop where
  id : f.row.id = f'.row.id
  isPublic : f.row.isPublic = true → f'.row.isPublic = true
  attributeNames : f.attributeNames = f'.attributeNames

/-- That members bind the same attributes and bring marked rows that correspond. -/
structure Member.AtMost (ctx ctx' : ModuleContext) (m m' : Member) : Prop where
  bindings : m.bindings = m'.bindings
  entities : Aligned (m.entities ctx) (m'.entities ctx')

theorem Container.AtMost.isModule {place place' : Container} (h : place.AtMost place') :
    place.isModule = place'.isModule := by
  cases place with
  | module =>
    cases place' with
    | module => rfl
    | «class» => cases h
  | «class» =>
    cases place' with
    | module => cases h
    | «class» => rfl

namespace ClassFrame

variable {ctx ctx' : ModuleContext} {f f' : ClassFrame}

/-- What a member adds to a class is not its id, its mark or a name that it does not bind. -/
theorem AtMost.absorb (h : f.AtMost f') {m m' : Member} (hm : m.bindings = m'.bindings) :
    (f.absorb ctx m).AtMost (f'.absorb ctx' m') where
  id := by
    have hid := congrArg ClassRow.id (f.absorb_withoutMembers ctx m)
    have hid' := congrArg ClassRow.id (f'.absorb_withoutMembers ctx' m')
    exact hid.trans (h.id.trans hid'.symm)
  isPublic hpublic := by
    have hsame := congrArg ClassRow.isPublic (f.absorb_withoutMembers ctx m)
    have hsame' := congrArg ClassRow.isPublic (f'.absorb_withoutMembers ctx' m')
    exact hsame'.trans (h.isPublic (hsame.symm.trans hpublic))
  attributeNames := by rw [absorb_attributeNames, absorb_attributeNames, h.attributeNames, hm]

theorem attributeRow_isPublic (b : Binding) :
    (f.attributeRow ctx b).isPublic = (f.row.isPublic && !isInternalName b.target.name) := rfl

theorem AtMost.newAttributes (h : f.AtMost f') (bs : List Binding) :
    Aligned ((f.newAttributes ctx bs).map .attribute)
      ((f'.newAttributes ctx' bs).map .attribute) := by
  rw [ClassFrame.newAttributes, ClassFrame.newAttributes, List.map_map, List.map_map,
    h.attributeNames]
  refine Aligned.map (fun b => ⟨?_, ?_, ?_⟩) _
  · exact congrArg (fun id => Ref.mk .attribute (Id.child id b.target.name)) h.id
  · rintro m m' ⟨⟩ ⟨⟩ hpublic
    rw [attributeRow_isPublic, Bool.and_eq_true] at hpublic ⊢
    exact ⟨h.isPublic hpublic.1, hpublic.2⟩
  · rintro ids ids' ⟨⟩

/-- Members that correspond bring corresponding rows, attributes included. -/
theorem AtMost.entitiesIn (h : f.AtMost f') {ms ms' : List Member}
    (hms : List.Forall₂ (Member.AtMost ctx ctx') ms ms') :
    Aligned (Member.entitiesIn ctx f ms) (Member.entitiesIn ctx' f' ms') := by
  induction hms generalizing f f' with
  | nil => exact .nil
  | @cons m m' _ _ hm _ ih =>
    rw [Member.entitiesIn, Member.entitiesIn]
    refine .append (.append ?_ hm.entities) (ih (h.absorb hm.bindings))
    rw [← hm.bindings]
    exact h.newAttributes m.bindings

end ClassFrame

section Members

variable {ctx ctx' : ModuleContext} (hindex : ctx.index.AtMost ctx'.index)
include hindex

theorem ModuleContext.reexportedBy_subset {place place' : Container} (h : place.AtMost place')
    (qname : String) :
    ctx.reexportedBy place.isModule qname ⊆ ctx'.reexportedBy place'.isModule qname := by
  rw [h.isModule, reexportedBy, reexportedBy]
  split
  · exact hindex.reexportedBy qname
  · exact List.Subset.refl _

variable {scope scope' : Scope} (hscope : scope.AtMost scope')
include hscope

theorem ModuleContext.classScope_atMost (head : ClassHead) :
    (ctx.classScope scope head).AtMost (ctx'.classScope scope' head) where
  id := congrArg (Id.child · head.name) hscope.id
  place := hindex.isPublic hscope.place

namespace Member

open ModuleContext

theorem class_atMost (head : ClassHead) {members members' : List Member}
    (h : List.Forall₂ (Member.AtMost ctx ctx') members members') :
    Member.AtMost ctx ctx' (.class scope head members) (.class scope' head members') where
  bindings := rfl
  entities := by
    have hstart : (ClassFrame.start ctx scope head).AtMost (.start ctx' scope' head) :=
      ⟨congrArg (Id.child · head.name) hscope.id, hindex.isPublic hscope.place, rfl⟩
    rw [Member.entities, Member.entities]
    refine .append (hstart.entitiesIn h) (.singleton ⟨?_, ?_, ?_⟩)
    · have hid := ClassFrame.foldl_absorb_id ctx (.start ctx scope head) members
      have hid' := ClassFrame.foldl_absorb_id ctx' (.start ctx' scope' head) members'
      exact congrArg (Ref.mk .class) (hid.trans (hstart.id.trans hid'.symm))
    · intro m m' hm hm'
      rw [(finishedClass_mark _ _ _ _).1] at hm hm'
      cases hm
      cases hm'
      exact hindex.isPublic hscope.place
    · rintro ids ids' ⟨⟩ ⟨⟩
      rw [finishedClass_reexportedBy, finishedClass_reexportedBy]
      exact reexportedBy_subset hindex hscope.place head.fullname

theorem enum_atMost (head : ClassHead) (body : List Assignment) :
    Member.AtMost ctx ctx' (.enum scope head body) (.enum scope' head body) where
  bindings := rfl
  entities := by
    rw [Member.entities, Member.entities]
    refine .append (.of_unmarked ?_ ?_) (.singleton ⟨?_, ?_, ?_⟩)
    · exact List.forall_mem_map.2 fun _ _ => rfl
    · exact List.forall_mem_map.2 fun _ _ => rfl
    · exact congrArg (fun id => Ref.mk .enum (Id.child id head.name)) hscope.id
    · rintro m m' ⟨⟩ ⟨⟩
      exact hindex.isPublic hscope.place
    · rintro ids ids' ⟨⟩

theorem function_atMost (head : FunctionHead) (body : List Statement) :
    Member.AtMost ctx ctx' (.function scope head body) (.function scope' head body) where
  bindings := rfl
  entities := by
    have hparts : ∀ (ps : List ParameterRow) (rs : List ResultRow),
        ∀ e ∈ ps.map Entity.parameter ++ rs.map .result, e.ref.kind.isMarked = false :=
      fun ps rs => List.forall_mem_append.2
        ⟨List.forall_mem_map.2 fun _ _ => rfl, List.forall_mem_map.2 fun _ _ => rfl⟩
    rw [Member.entities, Member.entities]
    refine .append (.of_unmarked (hparts _ _) (hparts _ _)) (.singleton ⟨?_, ?_, ?_⟩)
    · exact congrArg (fun id => Ref.mk .function (Id.child id head.name)) hscope.id
    · rintro m m' ⟨⟩ ⟨⟩ hpublic
      have hsame := functionIsPublic_eq ctx head scope.place
      have hsame' := functionIsPublic_eq ctx' head scope'.place
      exact hsame'.trans (hindex.isPublic hscope.place (hsame.symm.trans hpublic))
    · rintro ids ids' ⟨⟩ ⟨⟩
      exact reexportedBy_subset hindex hscope.place head.fullname

end Member

end Members

/-! ## 5. Walks side by side -/

namespace ModuleContext

/-- That what two walks keep corresponds and has claimed the same ids. -/
structure KeptAlike (ctx ctx' : ModuleContext) (kept kept' : List Member × List String) : Prop where
  members : List.Forall₂ (Member.AtMost ctx ctx') kept.1 kept'.1
  claimed : kept.2 = kept'.2

variable {ctx ctx' : ModuleContext}

-- Whether a declaration is kept is a question of ids, and ids do not depend on the index.
mutual
theorem keep_alike (hindex : ctx.index.AtMost ctx'.index) {scope scope' : Scope}
    (hscope : scope.AtMost scope') :
    (d : Declaration) → (claimed : List String) →
      KeptAlike ctx ctx' (keep ctx scope d claimed) (keep ctx' scope' d claimed)
  | .class head body, claimed => by
    have hbody := keepAll_alike hindex (classScope_atMost hindex hscope head) body
      (Id.child scope.id head.name :: claimed)
    rw [keep, keep, ← hscope.id]
    dsimp only
    split
    · exact ⟨.nil, rfl⟩
    · split
      · exact ⟨.cons (Member.enum_atMost hindex hscope head _) .nil, rfl⟩
      · exact ⟨.cons (Member.class_atMost hindex hscope head hbody.members) .nil, hbody.claimed⟩
  | .function head body, claimed => by
    rw [keep, keep, ← hscope.id]
    split
    · exact ⟨.nil, rfl⟩
    · exact ⟨.cons (Member.function_atMost hindex hscope head body) .nil, rfl⟩
  | .assignment a, claimed => by
    rw [keep, keep]
    exact ⟨.cons ⟨rfl, .nil⟩ .nil, rfl⟩

theorem keepAll_alike (hindex : ctx.index.AtMost ctx'.index) {scope scope' : Scope}
    (hscope : scope.AtMost scope') :
    (ds : List Declaration) → (claimed : List String) →
      KeptAlike ctx ctx' (keepAll ctx scope ds claimed) (keepAll ctx' scope' ds claimed)
  | [], claimed => ⟨.nil, rfl⟩
  | d :: more, claimed => by
    have hfirst := keep_alike hindex hscope d claimed
    have hrest := keepAll_alike hindex hscope more (keep ctx scope d claimed).2
    rw [keepAll, keepAll]
    dsimp only
    rw [← hfirst.claimed]
    exact ⟨List.rel_append hfirst.members hrest.members, hrest.claimed⟩
end

end ModuleContext

theorem Member.aligned_flatMap {ctx ctx' : ModuleContext} {ms ms' : List Member}
    (h : List.Forall₂ (Member.AtMost ctx ctx') ms ms') :
    Aligned (ms.flatMap (Member.entities ctx)) (ms'.flatMap (Member.entities ctx')) := by
  induction h with
  | nil => exact .nil
  | cons hm _ ih => exact .append hm.entities ih

namespace SourceFile

variable {ctx ctx' : ModuleContext}

theorem aligned_entities (f : SourceFile) (hindex : ctx.index.AtMost ctx'.index) :
    Aligned (f.entities ctx) (f.entities ctx') := by
  have hscope : f.scope.AtMost f.scope := ⟨rfl, rfl⟩
  have hkept := ModuleContext.keepAll_alike hindex hscope (Statement.declarationsIn f.body)
    [Id.ofPath f.path]
  refine .append (Member.aligned_flatMap hkept.members) (.of_unmarked ?_ ?_)
  · exact List.forall_mem_singleton.2 rfl
  · exact List.forall_mem_singleton.2 rfl

theorem model_atMost (f : SourceFile) (hindex : ctx.index.AtMost ctx'.index) :
    (f.model ctx).AtMost (f.model ctx') :=
  Api.AtMost.empty.foldl_add (f.aligned_entities hindex)

end SourceFile

/-- **Publicity is monotone in the index.**  For any two ways to collect an index, such that what is
recorded on the first is recorded on the second as well, and every file: both walks succeed and give
the same ids to classes, functions, enums and attributes.  Each of these entities that is public
with the first index is public with the second, and the package entries that its row names with the
first are among those that it names with the second. -/
theorem publicity_monotone (c d : Collection) (h : ∀ e ∈ c.entries, e ∈ d.entries)
    (f : SourceFile) (style : DocstringProvider) :
    ∃ a b, f.assemble c.index style = .ok a ∧ f.assemble d.index style = .ok b ∧ a.AtMost b :=
  ⟨_, _, f.assemble_eq c.index style, f.assemble_eq d.index style,
    f.model_atMost (Collection.atMost h)⟩

namespace Sample

/-- The entry of the package, which offers an internal class. -/
def oneEntry : Collection := Collection.empty.scan entryFile.scan

/-- The same entry and another one, which comes first. -/
def twoEntries : Collection :=
  (Collection.empty.insert "api/__init__" ⟨.module, "pkg._impl", "pkg._impl", "", none, 0⟩).merge
    oneEntry

/-- The model of the file with the class. -/
def innerModel (c : Collection) : Api :=
  innerFile.model (innerFile.context c.index DocstringStyle.plaintext)

/-- The class is public because of the first entry, and the second adds itself to the reasons. -/
theorem hidden_class_stays_public :
    (∀ e ∈ oneEntry.entries, e ∈ twoEntries.entries)
      ∧ ∃ a b r r', innerFile.assemble oneEntry.index DocstringStyle.plaintext = .ok a
        ∧ innerFile.assemble twoEntries.index DocstringStyle.plaintext = .ok b
        ∧ a.Holds (.class r) ∧ b.Holds (.class r') ∧ r.name = "_Hidden" ∧ r.id = r'.id
        ∧ r.reexportedBy = ["pkg/__init__"] ∧ r'.reexportedBy = ["api/__init__", "pkg/__init__"]
        ∧ r.isPublic = true ∧ r'.isPublic = true ∧ r.reexportedBy ⊆ r'.reexportedBy := by
  have hwider : ∀ e ∈ oneEntry.entries, e ∈ twoEntries.entries := fun e he =>
    List.mem_append_right _ he
  obtain ⟨a, b, ha, hb, hrows⟩ :=
    publicity_monotone oneEntry twoEntries hwider innerFile DocstringStyle.plaintext
  obtain rfl := Except.ok.inj (ha.symm.trans (innerFile.assemble_eq _ _))
  obtain rfl := Except.ok.inj (hb.symm.trans (innerFile.assemble_eq _ _))
  obtain ⟨r, hr, r', hr', hname, hid, hone, htwo, hpublic⟩ :
      ∃ r ∈ (innerModel oneEntry).classes.toList,
        ∃ r' ∈ (innerModel twoEntries).classes.toList,
          r.name = "_Hidden" ∧ r.id = r'.id ∧ r.reexportedBy = ["pkg/__init__"]
            ∧ r'.reexportedBy = ["api/__init__", "pkg/__init__"] ∧ r.isPublic = true := by
    decide +kernel
  have hrow := hrows.rows (.class r) (.class r') hr hr' (congrArg (Ref.mk .class) hid) rfl
  exact ⟨hwider, _, _, r, r', ha, hb, hr, hr', hname, hid, hone, htwo, hpublic,
    hrow.isPublic _ _ rfl rfl hpublic, hrow.reexportedBy _ _ rfl rfl⟩

end Sample

end ApiSurface
