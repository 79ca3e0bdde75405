import ApiSurface.Proofs.DottedNames
import ApiSurface.Proofs.FileRows
import ApiSurface.Proofs.IdClashes
import ApiSurface.Proofs.ResultNames
/-!
# Owners

The rows of a file form a forest with the module at its root.  Every other row is listed by one row,
its owner, and its id is that of the owner followed by its own name.  Enums are the exception: the
module lists them wherever they stand, so that their ids only lie below that of the module.

Two facts make the forest.  An id tells the member that it belongs to, if names hold no slashes
(`Kept.part_eq_part`), which leaves one owner to each row.  And no child list says the same twice:
members have different ids, and the names of attributes, instances and results are given once.
Parameters are named by the source and may repeat.
-/

namespace ApiSurface

/-! ## 1. Ids and names -/

namespace Id

/-- A child lies below its owner, if it has a name. -/
theorem isOwnedBy_child (owner name : String) :
    isOwnedBy (child owner name) owner = true ↔ name ≠ "" := by
  have hdrop : Text.dropStart? owner.toList (child owner name).toList
      = some ('/' :: name.toList) := Text.dropStart?_eq_some.2 (child_toList owner name)
  rw [isOwnedBy, hdrop, Ne, ← String.toList_inj]
  cases name.toList with
  | nil => simp
  | cons => simp

end Id

/-- The name in a row. -/
def Entity.name : Entity → String
  | .module r => r.name
  | .class r => r.name
  | .function r => r.name
  | .parameter r => r.name
  | .attribute r => r.name
  | .result r => r.name
  | .enum r => r.name
  | .enumInstance r => r.name

namespace Member

variable {ctx : ModuleContext} {m : Member} {l : Label} {e : Entity}

theorem name_of_row (h : m.row? ctx = some e) (hl : m.label? = some l) : e.name = l.name := by
  cases m with
  | «class» scope head members =>
    cases h
    cases hl
    exact congrArg ClassRow.name
      ((ClassFrame.start ctx scope head).foldl_absorb_withoutMembers ctx members)
  | enum | function =>
    cases h
    cases hl
    rfl
  | assignment => cases h

/-- The id of a part is that of its member followed by its own name. -/
theorem id_of_partRows (hl : m.label? = some l) (he : e ∈ m.partRows ctx) :
    e.ref.id = Id.child l.id e.name := by
  cases m with
  | «class» scope head members =>
    cases hl
    obtain ⟨r, hr, rfl⟩ := List.mem_map.1 he
    obtain ⟨b, -, rfl⟩ := List.mem_map.1 hr
    rfl
  | enum scope head body =>
    cases hl
    obtain ⟨name, -, rfl⟩ := List.mem_map.1 he
    rfl
  | function scope head body =>
    cases hl
    rcases List.mem_append.1 he with he | he
    · obtain ⟨p, hp, rfl⟩ := List.mem_map.1 he
      obtain ⟨a, -, rfl⟩ := List.mem_map.1 hp
      rfl
    · obtain ⟨r, hr, rfl⟩ := List.mem_map.1 he
      exact ctx.id_of_mem_results hr
  | assignment => cases hl

end Member

/-! ## 2. One owner -/

namespace SourceFile

open Member (withBelowIn)

variable {f : SourceFile} {ctx : ModuleContext} {o o' e : Entity} {m : Member} {l : Label}

/-- Only the module lists enums. -/
theorem eq_module_of_enum (ho : o ∈ f.entities ctx) {r : Ref} (hr : r ∈ o.children)
    (hkind : r.kind = .enum) : o = .module (f.finishedRow (f.members ctx)) := by
  rcases mem_entities_iff.1 ho with rfl | ⟨m, hm, ho | ho⟩
  · rfl
  · rw [Entity.children_of_isPart (Member.isPart_of_partRows ho)] at hr
    cases hr
  · exfalso
    obtain ⟨l, hl, -⟩ := Member.label?_of_row? ho
    have hinside := (f.claims_members ctx).inside hm hl
    rcases (Member.mem_children ho hl fun m' hm' => (hinside m' hm').2).1 hr
      with hpart | ⟨m', -, hlisted⟩
    · obtain ⟨e, he, rfl⟩ := List.mem_map.1 hpart
      have hpart := Member.isPart_of_partRows he
      rw [hkind] at hpart
      cases hpart
    · obtain ⟨l', -, hne, rfl⟩ := Member.listed?_eq_some.1 hlisted
      exact hne hkind

/-- Parts are listed only by the row of the member that they are parts of. -/
theorem owner_of_part (h : ∀ n ∈ f.declaredNames, Id.IsSegment n) (ho : o ∈ f.entities ctx)
    (hm : m ∈ withBelowIn (f.members ctx)) (hl : m.label? = some l) (he : e ∈ m.partRows ctx)
    (hr : e.ref ∈ o.children) : l.id = o.ref.id := by
  have hkept := kept_members ctx h
  have hpart := Member.isPart_of_partRows he
  rcases mem_entities_iff.1 ho with rfl | ⟨m', hm', ho | ho⟩
  · exfalso
    obtain ⟨l', m', hl', hkind⟩ : ∃ l' m', Member.label? m' = some l' ∧ l'.kind = e.ref.kind := by
      rcases mem_module_children.1 hr with ⟨m', -, hlisted⟩ | ⟨m', -, l', hl', -, href⟩
      · obtain ⟨l', hl', -, href⟩ := Member.listed?_eq_some.1 hlisted
        exact ⟨l', m', hl', congrArg Ref.kind href⟩
      · exact ⟨l', m', hl', congrArg Ref.kind href⟩
    rw [← hkind, Member.isPart_of_label? hl'] at hpart
    cases hpart
  · rw [Entity.children_of_isPart (Member.isPart_of_partRows ho)] at hr
    cases hr
  · obtain ⟨l', hl', href⟩ := Member.label?_of_row? ho
    have hinside := (f.claims_members ctx).inside hm' hl'
    rw [href]
    rcases (Member.mem_children ho hl' fun m' hm' => (hinside m' hm').2).1 hr
      with hr | ⟨m₂, -, hlisted⟩
    · obtain ⟨p, hp, heq⟩ := (Member.mem_partRows_ref hl).1 (List.mem_map_of_mem he)
      obtain ⟨p', hp', heq'⟩ := (Member.mem_partRows_ref hl').1 hr
      have hid := congrArg Ref.id (heq.symm.trans heq')
      exact (hkept.part_eq_part hm hl hp hm' hl' hp' hid).1
    · obtain ⟨l₂, hl₂, -, href₂⟩ := Member.listed?_eq_some.1 hlisted
      rw [← href₂, Label.ref, Member.isPart_of_label? hl₂] at hpart
      cases hpart

/-- Rows that list something are told by their ids. -/
theorem eq_of_id_eq (ho : o ∈ f.entities ctx) (ho' : o' ∈ f.entities ctx)
    (hpart : o.ref.kind.isPart = false) (hpart' : o'.ref.kind.isPart = false)
    (hid : o.ref.id = o'.ref.id) : o = o' := by
  have hclaims := f.claims_members ctx
  have hmodule : ∀ {m : Member} {e : Entity}, m ∈ withBelowIn (f.members ctx) →
      m.row? ctx = some e → e.ref.id ≠ Id.ofPath f.path := by
    intro m e hm he hpath
    obtain ⟨l, hl, href⟩ := Member.label?_of_row? he
    have hfresh := hclaims.fresh l.id (Member.mem_labelIds hm hl)
    rw [href] at hpath
    exact hfresh (List.mem_singleton.2 hpath)
  rcases mem_entities_iff.1 ho with rfl | ⟨m, hm, ho | ho⟩
  · rcases mem_entities_iff.1 ho' with rfl | ⟨m', hm', ho' | ho'⟩
    · rfl
    · rw [Member.isPart_of_partRows ho'] at hpart'
      cases hpart'
    · exact absurd hid.symm (hmodule hm' ho')
  · rw [Member.isPart_of_partRows ho] at hpart
    cases hpart
  · rcases mem_entities_iff.1 ho' with rfl | ⟨m', hm', ho' | ho'⟩
    · exact absurd hid (hmodule hm ho)
    · rw [Member.isPart_of_partRows ho'] at hpart'
      cases hpart'
    · obtain ⟨l, hl, href⟩ := Member.label?_of_row? ho
      obtain ⟨l', hl', href'⟩ := Member.label?_of_row? ho'
      rw [href, href'] at hid
      obtain rfl := Member.eq_of_label_id hclaims.nodup hm hm' hl hl' hid
      exact Option.some.inj (ho.symm.trans ho')

/-- A row has at most one owner. -/
theorem owner_unique (h : ∀ n ∈ f.declaredNames, Id.IsSegment n) (he : e ∈ f.entities ctx)
    (ho : o ∈ f.entities ctx) (ho' : o' ∈ f.entities ctx) (hr : e.ref ∈ o.children)
    (hr' : e.ref ∈ o'.children) : o = o' := by
  have hpart : ∀ {o : Entity}, e.ref ∈ o.children → o.ref.kind.isPart = false := by
    intro o hr
    by_contra hpart
    rw [Bool.not_eq_false] at hpart
    rw [Entity.children_of_isPart hpart] at hr
    cases hr
  rcases mem_entities_iff.1 he with rfl | ⟨m, hm, he | he⟩
  · exact absurd rfl (Entity.kind_of_mem_children hr)
  · obtain ⟨l, hl⟩ := Member.label?_of_partRows he
    refine eq_of_id_eq ho ho' (hpart hr) (hpart hr') ?_
    rw [← owner_of_part h ho hm hl he hr, owner_of_part h ho' hm hl he hr']
  · obtain ⟨l, hl, href⟩ := Member.label?_of_row? he
    by_cases henum : l.kind = .enum
    · have hkind : e.ref.kind = .enum := href ▸ henum
      rw [eq_module_of_enum ho hr hkind, eq_module_of_enum ho' hr' hkind]
    · rw [href] at hr hr'
      refine eq_of_id_eq ho ho' (hpart (href ▸ hr)) (hpart (href ▸ hr')) ?_
      rw [← owner_of_mem_children ho hm hl henum hr, owner_of_mem_children ho' hm hl henum hr']

/-- The id of a listed row, enums apart. -/
theorem id_of_mem_children (h : ∀ n ∈ f.declaredNames, Id.IsSegment n) (he : e ∈ f.entities ctx)
    (ho : o ∈ f.entities ctx) (hr : e.ref ∈ o.children) (hkind : e.ref.kind ≠ .enum) :
    e.ref.id = Id.child o.ref.id e.name := by
  rcases mem_entities_iff.1 he with rfl | ⟨m, hm, he | he⟩
  · exact absurd rfl (Entity.kind_of_mem_children hr)
  · obtain ⟨l, hl⟩ := Member.label?_of_partRows he
    rw [← owner_of_part h ho hm hl he hr, Member.id_of_partRows hl he]
  · obtain ⟨l, hl, href⟩ := Member.label?_of_row? he
    rw [href] at hr hkind
    rw [href, Member.name_of_row he hl, ← owner_of_mem_children ho hm hl hkind hr]
    rfl

end SourceFile

/-! ## 3. Listed once -/

/-- Fresh bindings have different names. -/
theorem freshBindings_nodup (seen : List String) (bs : List Binding) :
    ((freshBindings seen bs).map Binding.name).Nodup
      ∧ ∀ n ∈ (freshBindings seen bs).map Binding.name, n ∉ seen := by
  induction bs generalizing seen with
  | nil => exact ⟨List.nodup_nil, by simp [freshBindings]⟩
  | cons b more ih =>
    rw [freshBindings]
    split
    · exact ih seen
    · rename_i hfresh
      obtain ⟨hnodup, hapart⟩ := ih (b.name :: seen)
      rw [List.map_cons]
      constructor
      · refine List.nodup_cons.2 ⟨fun hmem => ?_, hnodup⟩
        exact hapart _ hmem List.mem_cons_self
      · intro n hn hseen
        rcases List.mem_cons.1 hn with rfl | hn
        · exact hfresh (List.contains_iff_mem.2 hseen)
        · exact hapart n hn (List.mem_cons_of_mem _ hseen)

namespace Id

theorem child_injective (owner : String) : Function.Injective (child owner) :=
  fun _ _ h => child_right_inj.1 h

end Id

/-- The results of a function have different ids. -/
theorem ModuleContext.nodup_results (ctx : ModuleContext) (head : FunctionHead)
    (body : List Statement) {functionId : String} (owner : Option ClassHead) :
    ((ctx.results head body functionId owner).map ResultRow.id).Nodup := by
  have hids : (ctx.results head body functionId owner).map ResultRow.id
      = ((ctx.results head body functionId owner).map ResultRow.name).map
        (Id.child functionId) := by
    rw [List.map_map]
    exact List.map_congr_left fun r hr => ctx.id_of_mem_results hr
  rw [hids]
  exact (nodup_nameResults functionId _ _).map (Id.child_injective functionId)

namespace Ref

theorem nodup_map_mk (kind : EntityKind) {ids : List String} (h : ids.Nodup) :
    (ids.map (Ref.mk kind)).Nodup :=
  h.map fun _ _ heq => congrArg Ref.id heq

/-- References of different kinds are different. -/
theorem nodup_append_mk {kind : EntityKind} {rs : List Ref} {ids : List String} (h : rs.Nodup)
    (hids : ids.Nodup) (hkind : ∀ r ∈ rs, r.kind ≠ kind) :
    (rs ++ ids.map (Ref.mk kind)).Nodup := by
  refine List.nodup_append.2 ⟨h, nodup_map_mk kind hids, ?_⟩
  intro r hr r' hr' heq
  obtain ⟨id, -, rfl⟩ := List.mem_map.1 hr'
  exact hkind r hr (congrArg Ref.kind heq)

theorem nodup_three_kinds {kind₁ kind₂ kind₃ : EntityKind} {ids₁ ids₂ ids₃ : List String}
    (h₁₂ : kind₁ ≠ kind₂) (h₁₃ : kind₁ ≠ kind₃) (h₂₃ : kind₂ ≠ kind₃) (hids₁ : ids₁.Nodup)
    (hids₂ : ids₂.Nodup) (hids₃ : ids₃.Nodup) :
    (ids₁.map (Ref.mk kind₁) ++ ids₂.map (Ref.mk kind₂) ++ ids₃.map (Ref.mk kind₃)).Nodup := by
  refine nodup_append_mk (nodup_append_mk (nodup_map_mk kind₁ hids₁) hids₂ ?_) hids₃ ?_
  · intro r hr
    obtain ⟨id, -, rfl⟩ := List.mem_map.1 hr
    exact h₁₂
  · intro r hr
    rcases List.mem_append.1 hr with hr | hr
    · obtain ⟨id, -, rfl⟩ := List.mem_map.1 hr
      exact h₁₃
    · obtain ⟨id, -, rfl⟩ := List.mem_map.1 hr
      exact h₂₃

end Ref

/-- Parameters may repeat in the lists of a function, results do not. -/
theorem Entity.count_function_children {row : FunctionRow} (h : row.results.Nodup) {r : Ref}
    (hr : r ∈ (Entity.function row).children) (hkind : r.kind ≠ .parameter) :
    (Entity.function row).children.count r = 1 := by
  have hother : r ∉ row.parameters.map (Ref.mk .parameter) := by
    intro hmem
    obtain ⟨id, -, rfl⟩ := List.mem_map.1 hmem
    exact hkind rfl
  rw [children, List.mem_append] at hr
  rw [children, List.count_append, List.count_eq_zero_of_not_mem hother, Nat.zero_add]
  exact List.count_eq_one_of_mem (Ref.nodup_map_mk .result h) (hr.resolve_left hother)

namespace Member

variable {ctx : ModuleContext} {scope : Scope} {head : ClassHead} {members : List Member}

theorem sublist_withBelowIn (ms : List Member) : ms.Sublist (withBelowIn ms) := by
  induction ms with
  | nil => exact List.Sublist.refl _
  | cons m ms ih =>
    have hm : [m].Sublist m.withBelow := by
      rw [List.singleton_sublist]
      cases m <;> simp [withBelow]
    exact hm.append ih

mutual
theorem sublist_withBelow_of_class : (top : Member) →
    .class scope head members ∈ top.withBelow → members.Sublist top.withBelow
  | .class _ _ ms, hc => by
    rw [withBelow, List.mem_append, List.mem_singleton] at hc
    rw [withBelow]
    refine List.Sublist.trans ?_ (List.sublist_append_left _ _)
    rcases hc with hc | hc
    · exact sublist_withBelowIn_of_class ms hc
    · cases hc
      exact sublist_withBelowIn members
  | .enum .., hc => by cases List.mem_singleton.1 hc
  | .function .., hc => by cases List.mem_singleton.1 hc
  | .assignment _, hc => by cases List.mem_singleton.1 hc

/-- The members of a class stand among all members in their order. -/
theorem sublist_withBelowIn_of_class : (ms : List Member) →
    .class scope head members ∈ withBelowIn ms → members.Sublist (withBelowIn ms)
  | [], hc => by cases hc
  | top :: ms, hc => by
    rw [withBelowIn, List.mem_append] at hc
    rw [withBelowIn]
    rcases hc with hc | hc
    · exact (sublist_withBelow_of_class top hc).trans (List.sublist_append_left _ _)
    · exact (sublist_withBelowIn_of_class ms hc).trans (List.sublist_append_right _ _)
end

/-- That ids of members are those of their labels. -/
def OfLabel (g : Member → Option String) : Prop :=
  ∀ m id, g m = some id → ∃ l, m.label? = some l ∧ l.id = id

theorem ofLabel_classId? : OfLabel classId? := by
  intro m id hid
  cases m with
  | «class» => exact ⟨_, rfl, Option.some.inj hid⟩
  | enum | function | assignment => cases hid

theorem ofLabel_functionId? : OfLabel functionId? := by
  intro m id hid
  cases m with
  | function => exact ⟨_, rfl, Option.some.inj hid⟩
  | «class» | enum | assignment => cases hid

theorem ofLabel_enumId? : OfLabel fun m => m.enumOutline?.map EnumOutline.id := by
  intro m id hid
  cases m with
  | enum => exact ⟨_, rfl, Option.some.inj hid⟩
  | «class» | function | assignment => cases hid

theorem ofLabel_methodId? : OfLabel methodId? := by
  intro m id hid
  cases m with
  | function scope head body =>
    rw [methodId?] at hid
    split at hid
    · cases hid
    · exact ⟨_, rfl, Option.some.inj hid⟩
  | «class» | enum | assignment => cases hid

theorem ofLabel_initializerId? : OfLabel initializerId? := by
  intro m id hid
  cases m with
  | function scope head body =>
    rw [initializerId?] at hid
    split at hid
    · exact ⟨_, rfl, Option.some.inj hid⟩
    · cases hid
  | «class» | enum | assignment => cases hid

section Ids

variable {ms inner : List Member} (h : (labelIds ms).Nodup)
  (hinner : inner.Sublist (withBelowIn ms))
include h hinner

/-- Ids that members have from their labels are different. -/
theorem nodup_filterMap_of_label {g : Member → Option String} (hg : OfLabel g) :
    (inner.filterMap g).Nodup := by
  refine List.pairwise_filterMap.2 ((List.pairwise_filterMap.1 h).sublist hinner |>.imp ?_)
  intro m m' hne id hid id' hid'
  obtain ⟨l, hl, rfl⟩ := hg m id hid
  obtain ⟨l', hl', rfl⟩ := hg m' id' hid'
  exact hne _ (by rw [hl]; rfl) _ (by rw [hl']; rfl)

/-- No method is also the constructor. -/
theorem nodup_methods :
    (inner.filterMap methodId? ++ (inner.filterMap initializerId?).getLast?.toList).Nodup := by
  refine List.nodup_append.2 ⟨nodup_filterMap_of_label h hinner ofLabel_methodId?, ?_, ?_⟩
  · cases (inner.filterMap initializerId?).getLast? with
    | none => exact List.nodup_nil
    | some id => exact List.nodup_singleton id
  · rintro id hid id' hid' rfl
    obtain ⟨m, hm, hmid⟩ := List.mem_filterMap.1 hid
    obtain ⟨m', hm', hmid'⟩ :=
      List.mem_filterMap.1 (List.mem_of_getLast? (Option.mem_toList.1 hid'))
    obtain ⟨l, hl, hlid⟩ := ofLabel_methodId? m id hmid
    obtain ⟨l', hl', hlid'⟩ := ofLabel_initializerId? m' id hmid'
    obtain rfl := eq_of_label_id h (hinner.subset hm) (hinner.subset hm') hl hl'
      (hlid.trans hlid'.symm)
    cases m with
    | function scope head body =>
      rw [methodId?] at hmid
      rw [initializerId?] at hmid'
      split at hmid
      · cases hmid
      · rename_i hname
        rw [if_neg hname] at hmid'
        cases hmid'
    | «class» | enum | assignment => cases hmid

end Ids

/-- A class lists nothing twice. -/
theorem nodup_class_children {ms : List Member} (h : (labelIds ms).Nodup)
    (hc : .class scope head members ∈ withBelowIn ms) :
    (Entity.class (ctx.finishedClass scope head members)).children.Nodup := by
  have hlists := Option.some.inj (ctx.finishedClass_outline scope head members)
  have hmethods := congrArg ClassOutline.methods hlists
  have hconstructor := congrArg ClassOutline.constructor? hlists
  have hclasses := congrArg ClassOutline.classes hlists
  simp only [ClassRow.outline] at hmethods hconstructor hclasses
  have hinner := sublist_withBelowIn_of_class ms hc
  have hattributes : (ctx.finishedClass scope head members).attributes.Nodup := by
    have hnames := (freshBindings_nodup [] (members.flatMap bindings)).1
    have hids := hnames.map (Id.child_injective (Id.child scope.id head.name))
    rw [List.map_map] at hids
    rw [← ctx.newAttributes_ids, ClassFrame.newAttributes, List.map_map]
    exact hids
  rw [Entity.children, hmethods, hconstructor, hclasses, ← List.map_append]
  refine Ref.nodup_three_kinds (by decide) (by decide) (by decide) ?_ ?_ hattributes
  · exact nodup_methods h hinner
  · exact nodup_filterMap_of_label h hinner ofLabel_classId?

end Member

namespace SourceFile

open Member (withBelowIn)

variable {f : SourceFile} {ctx : ModuleContext}

/-- The module lists nothing twice. -/
theorem nodup_module_children (f : SourceFile) (ctx : ModuleContext) :
    (Entity.module (f.finishedRow (f.members ctx))).children.Nodup := by
  have hnodup := (f.claims_members ctx).nodup
  have hdirect := Member.sublist_withBelowIn (f.members ctx)
  have hall : (withBelowIn (f.members ctx)).Sublist (withBelowIn (f.members ctx)) :=
    List.Sublist.refl _
  have henums : (f.finishedRow (f.members ctx)).enums = (withBelowIn (f.members ctx)).filterMap
      fun m => m.enumOutline?.map EnumOutline.id := by
    rw [finishedRow, Member.enumIdsIn_eq, List.map_filterMap]
  rw [Entity.children, henums]
  refine Ref.nodup_three_kinds (by decide) (by decide) (by decide) ?_ ?_ ?_
  · exact Member.nodup_filterMap_of_label hnodup hdirect Member.ofLabel_classId?
  · exact Member.nodup_filterMap_of_label hnodup hdirect Member.ofLabel_functionId?
  · exact Member.nodup_filterMap_of_label hnodup hall Member.ofLabel_enumId?

/-- Rows list nothing twice, parameters apart. -/
theorem listed_once {o : Entity} (ho : o ∈ f.entities ctx) {r : Ref} (hr : r ∈ o.children)
    (hkind : r.kind ≠ .parameter) : o.children.count r = 1 := by
  rcases mem_entities_iff.1 ho with rfl | ⟨m, hm, ho | ho⟩
  · exact List.count_eq_one_of_mem (f.nodup_module_children ctx) hr
  · rw [Entity.children_of_isPart (Member.isPart_of_partRows ho)] at hr
    cases hr
  · cases m with
    | «class» scope head members =>
      cases ho
      exact List.count_eq_one_of_mem
        (Member.nodup_class_children (f.claims_members ctx).nodup hm) hr
    | enum scope head body =>
      cases ho
      have hnames := (freshBindings_nodup [] (body.flatMap fun a => a.bindings none)).1
      have hids := hnames.map (Id.child_injective (Id.child scope.id head.name))
      exact List.count_eq_one_of_mem (Ref.nodup_map_mk .enumInstance hids) hr
    | function scope head body =>
      cases ho
      exact Entity.count_function_children (ctx.nodup_results head body scope.owner) hr hkind
    | assignment => cases ho

end SourceFile

/-! ## 4. The forest of a file -/

/-- Whether the rows of a model form a forest below a module.  An enum without a name that stands
directly in the module has the module's id and a slash, which does not lie below the module. -/
structure Api.Forest (a : Api) (module : String) : Prop where
  root : ∃ m, a.Holds (.module m) ∧ m.id = module ∧
    ∀ o, a.Holds o → o.ref.kind = .module → o = .module m
  owner : ∀ e, a.Holds e → e.ref.kind ≠ .module → ∃! o, a.Holds o ∧ e.ref ∈ o.children
  once : ∀ o r, a.Holds o → r ∈ o.children → r.kind ≠ .parameter → o.children.count r = 1
  id_eq : ∀ o e, a.Holds o → a.Holds e → e.ref ∈ o.children → e.ref.kind ≠ .enum →
    e.ref.id = Id.child o.ref.id e.name
  enum : ∀ e, a.Holds e → e.ref.kind = .enum → (∃ n, e.ref.id = Id.child module n)
    ∧ (Id.isOwnedBy e.ref.id module = false ↔ e.name = "" ∧ e.ref.id = Id.child module "")

namespace SourceFile

open Member (withBelowIn)

variable {f : SourceFile} {ctx : ModuleContext}

/-- Of the enums, only one without a name in the module itself is not owned by the module. -/
theorem isOwnedBy_of_enum (h : ∀ n ∈ f.declaredNames, Id.IsSegment n) {m : Member} {l : Label}
    (hm : m ∈ withBelowIn (f.members ctx)) (hl : m.label? = some l) :
    Id.isOwnedBy l.id (Id.ofPath f.path) = false
      ↔ l.name = "" ∧ l.id = Id.child (Id.ofPath f.path) "" := by
  have hkept := kept_members ctx h
  obtain ⟨n, hn⟩ := hkept.below m hm l hl
  rw [← Bool.not_eq_true, hn, Id.isOwnedBy_child, not_not, Id.child_right_inj]
  constructor
  · rintro rfl
    refine ⟨?_, rfl⟩
    rcases Id.child_eq_child (by decide) hn with ⟨-, hname⟩ | ⟨r, -, hname⟩
    · exact hname
    · exact absurd (hname ▸ hkept.segment m hm l hl) (Id.not_isSegment_child r "")
  · exact And.right

/-- The rows of a file form a forest. -/
theorem model_forest (h : ∀ n ∈ f.declaredNames, Id.IsSegment n) :
    (f.model ctx).Forest (Id.ofPath f.path) where
  root := by
    refine ⟨f.finishedRow (f.members ctx), holds_module, rfl, fun o ho hkind => ?_⟩
    exact eq_module_of_kind ho.of_foldl_add hkind
  owner e he hkind := by
    obtain ⟨o, ho, hr⟩ := f.model_listed ctx e he hkind
    refine ⟨o, ⟨ho, hr⟩, fun o' ho' => ?_⟩
    exact owner_unique h he.of_foldl_add ho'.1.of_foldl_add ho.of_foldl_add ho'.2 hr
  once o r ho hr hkind := listed_once ho.of_foldl_add hr hkind
  id_eq o e ho he hr hkind := id_of_mem_children h he.of_foldl_add ho.of_foldl_add hr hkind
  enum e he hkind := by
    rcases mem_entities_iff.1 he.of_foldl_add with rfl | ⟨m, hm, he | he⟩
    · cases hkind
    · have hpart := Member.isPart_of_partRows he
      rw [hkind] at hpart
      cases hpart
    · obtain ⟨l, hl, href⟩ := Member.label?_of_row? he
      rw [href, Member.name_of_row he hl]
      exact ⟨(f.claims_members ctx).below m hm l hl, isOwnedBy_of_enum h hm hl⟩

end SourceFile

/-- **Every row of a file has one owner.**  Whatever the file, if no declared name holds a slash:
its model has one module; every other row is listed by exactly one row, and exactly once there, but
parameters may repeat; its id is that of this owner followed by its name, unless it is an enum.  The
ids of enums lie below that of the module, with the one exception that `Forest` names. -/
theorem assemble_forest (f : SourceFile) (index : PackageIndex) (style : DocstringProvider)
    (h : ∀ n ∈ f.declaredNames, Id.IsSegment n) :
    ∃ api, f.assemble index style = .ok api ∧ api.Forest (Id.ofPath f.path) :=
  ⟨_, f.assemble_eq index style, SourceFile.model_forest h⟩

namespace Sample

/-- A class with an attribute and a method, owned by the module. -/
theorem class_in_forest :
    (∀ n ∈ (file "y" "x").declaredNames, Id.IsSegment n)
      ∧ ∃ api, (file "y" "x").assemble (.build [(file "y" "x").scan]) DocstringStyle.plaintext
        = .ok api ∧ api.Forest "m" := by
  have hnames : ∀ n ∈ (file "y" "x").declaredNames, Id.IsSegment n := by decide
  have hpath : Id.ofPath (file "y" "x").path = "m" := by decide
  have hforest := assemble_forest (file "y" "x") (.build [(file "y" "x").scan])
    DocstringStyle.plaintext hnames
  rw [hpath] at hforest
  exact ⟨hnames, hforest⟩

def unnamedHead : ClassHead := ⟨"", "m.", ["enum.Enum"], [], [], [], none, 1⟩

/-- A module whose only enum has no name. -/
def unnamedFile : SourceFile := ⟨"m.py", "m", none, [.classDef unnamedHead []]⟩

theorem members_unnamedFile (ctx : ModuleContext) :
    unnamedFile.members ctx = [.enum unnamedFile.scope unnamedHead []] := by
  have hscope : unnamedFile.scope.id = "m" := by decide
  have hpath : Id.ofPath unnamedFile.path = "m" := by decide
  have hid : Id.child "m" unnamedHead.name = "m/" := by decide
  have henum : unnamedHead.isEnum = true := by decide
  have hdeclared : Statement.declarationsIn unnamedFile.body = [.class unnamedHead []] := rfl
  rw [SourceFile.members, SourceFile.kept, hdeclared]
  simp [ModuleContext.keepAll, ModuleContext.keep, hscope, hpath, hid, henum, assignmentsOf]

/-- Its id ends with the slash after that of the module, and so does not lie below it. -/
theorem unnamed_enum_not_owned :
    (∀ n ∈ unnamedFile.declaredNames, Id.IsSegment n)
      ∧ ∃ api e, unnamedFile.assemble (.build [unnamedFile.scan]) DocstringStyle.plaintext = .ok api
        ∧ api.Holds e ∧ e.ref = ⟨.enum, "m/"⟩
        ∧ Id.isOwnedBy e.ref.id (Id.ofPath unnamedFile.path) = false := by
  have hmember : .enum unnamedFile.scope unnamedHead [] ∈ Member.withBelowIn (unnamedFile.members
      (unnamedFile.context (.build [unnamedFile.scan]) DocstringStyle.plaintext)) := by
    rw [members_unnamedFile]
    exact Member.mem_withBelowIn_self (List.mem_singleton_self _)
  obtain ⟨e, hrow, href⟩ := Member.row?_of_label?
    (unnamedFile.context (.build [unnamedFile.scan]) DocstringStyle.plaintext)
    (m := .enum unnamedFile.scope unnamedHead []) rfl
  have hid : e.ref = ⟨.enum, "m/"⟩ := href.trans (by decide)
  refine ⟨by decide, _, e, unnamedFile.assemble_eq _ _, SourceFile.holds_row hmember hrow, hid, ?_⟩
  rw [hid]
  decide

end Sample

end ApiSurface
