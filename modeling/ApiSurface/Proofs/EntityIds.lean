import ApiSurface.Proofs.Outline
/-!
# The ids of entities

A model has eight kinds of entities, with a table of ids for each.  Merging models unites the tables
of each kind, and the public view takes ids away from them and adds none.  What a file contributes
can be read off its kept members: each class, function and enum has an id of its own, and below
that id stand its attributes, its parameters and results, or its instances (`Declares`).
-/

namespace ApiSurface

/-! ## 1. Kinds and ids -/

inductive EntityKind
  | module | «class» | function | parameter | «attribute» | result | enum | enumInstance
  deriving DecidableEq

namespace Api

/-- The ids of a model's entities of a kind. -/
def ids (a : Api) : EntityKind → NameSet
  | .module => a.modules.keys
  | .class => a.classes.keys
  | .function => a.functions.keys
  | .parameter => a.parameters.keys
  | .attribute => a.attributes.keys
  | .result => a.results.keys
  | .enum => a.enums.keys
  | .enumInstance => a.enumInstances.keys

/-- Whether no id stands for entities of two kinds. -/
def IdsApart (a : Api) : Prop :=
  ∀ kind kind', kind ≠ kind' → ∀ id ∈ (a.ids kind).toList, id ∉ (a.ids kind').toList

theorem mem_ids_merge {a b : Api} {kind : EntityKind} {id : String} :
    id ∈ ((a.merge b).ids kind).toList
      ↔ id ∈ (a.ids kind).toList ∨ id ∈ (b.ids kind).toList := by
  cases kind <;> exact Table.mem_keys_union

theorem mem_ids_foldl_merge {parts : List Api} {a : Api} {kind : EntityKind} {id : String} :
    id ∈ ((parts.foldl merge a).ids kind).toList
      ↔ id ∈ (a.ids kind).toList ∨ ∃ b ∈ parts, id ∈ (b.ids kind).toList := by
  induction parts generalizing a with
  | nil => simp
  | cons b parts ih =>
    rw [List.foldl_cons, ih, mem_ids_merge, or_assoc]
    simp only [List.mem_cons, exists_eq_or_imp]

end Api

/-! ## 2. Ids in the public view -/

theorem Table.mem_of_get? {ρ : Type} [HasId ρ] {t : Table ρ} {id : String} {row : ρ}
    (h : t.get? id = some row) : row ∈ t.toList :=
  List.mem_of_find?_eq_some h

theorem exists_of_mem_mapM {α β : Type} {f : α → Option β} {l : List α} {l' : List β}
    (h : l.mapM f = some l') : ∀ b ∈ l', ∃ a ∈ l, f a = some b := by
  induction l generalizing l' with
  | nil =>
    cases h
    simp
  | cons a l ih =>
    rw [List.mapM_cons] at h
    obtain ⟨b, hb, h⟩ := Option.bind_eq_some_iff.1 h
    obtain ⟨bs, hbs, h⟩ := Option.bind_eq_some_iff.1 h
    cases h
    intro c hc
    rcases List.mem_cons.1 hc with rfl | hc
    · exact ⟨a, List.mem_cons_self, hb⟩
    · obtain ⟨a', ha', hf⟩ := ih hbs c hc
      exact ⟨a', List.mem_cons_of_mem a ha', hf⟩

namespace Api

/-- The classes of the view are rows of the model. -/
theorem mem_of_classesBelow {a : Api} {depth : Nat} {id : String} {rows : List ClassRow}
    (h : a.classesBelow depth id = some rows) : ∀ c ∈ rows, c ∈ a.classes.toList := by
  induction depth generalizing id rows with
  | zero => cases h
  | succ depth ih =>
    rw [classesBelow] at h
    cases hc : a.publicClass? id with
    | none =>
      rw [hc] at h
      cases h
      simp
    | some c =>
      rw [hc] at h
      obtain ⟨nested, hnested, rfl⟩ := Option.map_eq_some_iff.1 h
      intro d hd
      rcases List.mem_cons.1 hd with rfl | hd
      · exact Table.mem_of_get? (Option.filter_eq_some_iff.1 hc).1
      · obtain ⟨rows, hrows, hd⟩ := List.mem_flatten.1 hd
        obtain ⟨id', -, hbelow⟩ := exists_of_mem_mapM hnested rows hrows
        exact ih hbelow d hd

theorem mem_of_keptClasses? {a : Api} {rows : List ClassRow} (h : a.keptClasses? = some rows) :
    ∀ c ∈ rows, c ∈ a.classes.toList := by
  obtain ⟨lists, hlists, rfl⟩ := Option.map_eq_some_iff.1 h
  intro c hc
  obtain ⟨rows, hrows, hc⟩ := List.mem_flatten.1 hc
  obtain ⟨id, -, hbelow⟩ := exists_of_mem_mapM hlists rows hrows
  exact mem_of_classesBelow hbelow c hc

section View

variable {ρ : Type} [HasId ρ] {t : Table ρ} {rows : List ρ} {id : String}

/-- Rows with ids of a table bring no new ids. -/
theorem mem_keys_of_ids (hrows : ∀ r ∈ rows, ∃ r' ∈ t.toList, HasId.id r' = HasId.id r)
    (h : id ∈ (Table.keys (Ascending.ofList rows)).toList) : id ∈ t.keys.toList := by
  rw [Table.keys_ofList, NameSet.mem_ofList] at h
  obtain ⟨r, hr, rfl⟩ := List.mem_map.1 h
  exact Table.mem_keys.2 (hrows r hr)

theorem mem_keys_of_rows (hrows : ∀ r ∈ rows, ∃ id, t.get? id = some r)
    (h : id ∈ (Table.keys (Ascending.ofList rows)).toList) : id ∈ t.keys.toList := by
  refine mem_keys_of_ids (fun r hr => ?_) h
  obtain ⟨id', hget⟩ := hrows r hr
  exact ⟨r, Table.mem_of_get? hget, rfl⟩

end View

/-- The view has no ids that the model does not have. -/
theorem mem_ids_of_viewOf {a : Api} {classes : List ClassRow}
    (hclasses : ∀ c ∈ classes, c ∈ a.classes.toList) {kind : EntityKind} {id : String}
    (h : id ∈ ((a.viewOf classes).ids kind).toList) : id ∈ (a.ids kind).toList := by
  have hpublic : ∀ {ρ : Type} [HasId ρ] {t : Table ρ} {p : ρ → Bool} {ids : List String},
      ∀ r ∈ ids.filterMap (fun i => (t.get? i).filter p), ∃ i, t.get? i = some r := by
    intro ρ _ t p ids r hr
    obtain ⟨i, -, hget⟩ := List.mem_filterMap.1 hr
    exact ⟨i, (Option.filter_eq_some_iff.1 hget).1⟩
  have hall : ∀ {ρ : Type} [HasId ρ] {t : Table ρ} {ids : List String},
      ∀ r ∈ ids.filterMap t.get?, ∃ i, t.get? i = some r := by
    intro ρ _ t ids r hr
    obtain ⟨i, -, hget⟩ := List.mem_filterMap.1 hr
    exact ⟨i, hget⟩
  cases kind with
  | module =>
    refine mem_keys_of_ids (fun r hr => ?_) h
    obtain ⟨m, hm, rfl⟩ := List.mem_map.1 hr
    exact ⟨m, hm, rfl⟩
  | «class» =>
    refine mem_keys_of_ids (fun r hr => ?_) h
    obtain ⟨c, hc, rfl⟩ := List.mem_map.1 hr
    exact ⟨c, hclasses c hc, rfl⟩
  | function => exact mem_keys_of_rows hpublic h
  | «attribute» => exact mem_keys_of_rows hpublic h
  | enum => exact mem_keys_of_rows hpublic h
  | enumInstance => exact mem_keys_of_rows hall h
  | parameter =>
    refine mem_keys_of_rows (fun r hr => ?_) h
    obtain ⟨f, -, hr⟩ := List.mem_flatMap.1 hr
    exact hall r hr
  | result =>
    refine mem_keys_of_rows (fun r hr => ?_) h
    obtain ⟨f, -, hr⟩ := List.mem_flatMap.1 hr
    exact hall r hr

theorem mem_ids_of_publicView {a : Api} {kind : EntityKind} {id : String}
    (h : id ∈ ((a.publicView?.getD a).ids kind).toList) : id ∈ (a.ids kind).toList := by
  cases hview : a.publicView? with
  | none =>
    rw [hview] at h
    exact h
  | some view =>
    rw [hview] at h
    obtain ⟨classes, hclasses, rfl⟩ := Option.map_eq_some_iff.1 hview
    exact mem_ids_of_viewOf (mem_of_keptClasses? hclasses) h

end Api

/-! ## 3. Ids as paths -/

namespace Id

theorem child_toList (owner name : String) :
    (child owner name).toList = owner.toList ++ '/' :: name.toList := by
  simp [child, String.toList_append]

/-- A name that is one segment of an id. -/
def IsSegment (name : String) : Prop := '/' ∉ name.toList

instance (name : String) : Decidable (IsSegment name) := inferInstanceAs (Decidable (¬ _))

/-- Of two owners of one id, either they are the same or one stands below the other. -/
theorem child_eq_child_cases {p q n k : String} (h : child p n = child q k) :
    (p = q ∧ n = k) ∨ (∃ r, q = child p r ∧ n = child r k)
      ∨ ∃ r, p = child q r ∧ k = child r n := by
  have split : ∀ {a b c d : String} {l : List Char}, b.toList = a.toList ++ l →
      '/' :: c.toList = l ++ '/' :: d.toList →
        (a = b ∧ c = d) ∨ ∃ r, b = child a r ∧ c = child r d := by
    intro a b c d l hb hc
    cases l with
    | nil =>
      rw [List.append_nil] at hb
      exact .inl ⟨(String.toList_inj.1 hb).symm, String.toList_inj.1 (List.cons.inj hc).2⟩
    | cons x l =>
      obtain ⟨rfl, htail⟩ := List.cons.inj hc
      refine .inr ⟨String.ofList l, String.toList_inj.1 ?_, String.toList_inj.1 ?_⟩
      · rw [hb, child_toList, String.toList_ofList]
      · rw [htail, child_toList, String.toList_ofList]
        rfl
  have hchars := congrArg String.toList h
  rw [child_toList, child_toList, List.append_eq_append_iff] at hchars
  rcases hchars with ⟨l, hq, hn⟩ | ⟨l, hp, hk⟩
  · exact (split hq hn).imp id .inl
  · exact (split hp hk).imp (fun heq => ⟨heq.1.symm, heq.2.symm⟩) .inr

theorem not_isSegment_child (p n : String) : ¬ IsSegment (child p n) := by
  simp [IsSegment, child_toList]

/-- An id is the child of at most one owner by a single segment; any other owner stands further
up. -/
theorem child_eq_child {p q n k : String} (hk : IsSegment k) (h : child p n = child q k) :
    (p = q ∧ n = k) ∨ ∃ r, q = child p r ∧ n = child r k := by
  rcases child_eq_child_cases h with heq | hq | ⟨r, -, rfl⟩
  · exact .inl heq
  · exact .inr hq
  · exact absurd hk (not_isSegment_child r n)

theorem child_left_inj {p q n : String} : child p n = child q n ↔ p = q := by
  simp [child, ← String.toList_inj]

theorem child_right_inj {p n k : String} : child p n = child p k ↔ n = k := by
  simp [child, ← String.toList_inj]

/-- Going down, ids get longer. -/
theorem length_lt_child (p n : String) : p.toList.length < (child p n).toList.length := by
  rw [child_toList, List.length_append, List.length_cons]
  omega

theorem child_ne_self (p n r : String) : child (child p n) r ≠ p := by
  intro h
  have hlt := Nat.lt_trans (length_lt_child p n) (length_lt_child (child p n) r)
  rw [h] at hlt
  exact Nat.lt_irrefl _ hlt

end Id

/-! ## 4. What a file declares -/

/-- A class, function or enum: its kind, the id of its owner and its name. -/
structure Label where
  kind : EntityKind
  owner : String
  name : String

def Label.id (l : Label) : String := Id.child l.owner l.name

namespace Member

def label? : Member → Option Label
  | .class scope head _ => some ⟨.class, scope.id, head.name⟩
  | .enum scope head _ => some ⟨.enum, scope.id, head.name⟩
  | .function scope head _ => some ⟨.function, scope.id, head.name⟩
  | .assignment _ => none

/-- The kinds and names of what a member has besides the members below it. -/
def parts (ctx : ModuleContext) : Member → List (EntityKind × String)
  | .class _ _ members => (members.flatMap attributeNames).map fun n => (.attribute, n)
  | .enum _ _ body => (body.flatMap Assignment.plainNames).map fun n => (.enumInstance, n)
  | .function scope head body =>
    head.arguments.map (fun a => (.parameter, a.name))
      ++ (ctx.results head body (Id.child scope.id head.name) scope.owner).map
        fun r => (.result, r.name)
  | .assignment _ => []

/-- That a member brings an entity of a kind with an id: itself or one of its parts. -/
inductive Declares (ctx : ModuleContext) (m : Member) : EntityKind → String → Prop
  | self {l : Label} (hl : m.label? = some l) : Declares ctx m l.kind l.id
  | part {l : Label} {kind : EntityKind} {name : String} (hl : m.label? = some l)
      (hpart : (kind, name) ∈ m.parts ctx) : Declares ctx m kind (Id.child l.id name)

end Member

/-- That a file declares an entity of a kind with an id. -/
def SourceFile.Declares (f : SourceFile) (ctx : ModuleContext) (kind : EntityKind)
    (id : String) : Prop :=
  (kind = .module ∧ id = Id.ofPath f.path)
    ∨ ∃ m ∈ Member.withBelowIn (f.members ctx), m.Declares ctx kind id

/-! ## 5. The ids of a file's model -/

theorem id_of_mem_nameSlots {functionId : String} {declared : List ResultDescription}
    {r : ResultRow} {slots : List (ApiType × Option ResultDescription)} {taken : List String}
    {n : Nat} (h : r ∈ nameSlots functionId declared taken n slots) :
    r.id = Id.child functionId r.name := by
  induction slots generalizing taken n with
  | nil => cases h
  | cons slot slots ih =>
    rw [nameSlots] at h
    split at h
    · rcases List.mem_cons.1 h with rfl | h
      · rfl
      · exact ih h
    · rcases List.mem_cons.1 h with rfl | h
      · rfl
      · exact ih h

/-- The id of a result is its name below the function. -/
theorem ModuleContext.id_of_mem_results {ctx : ModuleContext} {head : FunctionHead}
    {body : List Statement} {id : String} {owner : Option ClassHead} {r : ResultRow}
    (h : r ∈ ctx.results head body id owner) : r.id = Id.child id r.name := by
  rw [results] at h
  unfold nameResults at h
  split at h
  · split at h
    · exact id_of_mem_nameSlots h
    · rw [List.mem_singleton.1 h]
      rfl
  · exact id_of_mem_nameSlots h

namespace Outline

/-- The ids of the entries of a kind. -/
def ids (o : Outline) : EntityKind → NameSet
  | .module => o.modules.keys
  | .class => o.classes.keys
  | .function => o.functions.keys
  | .parameter => o.parameters
  | .attribute => o.attributes
  | .result => o.results
  | .enum => o.enums.keys
  | .enumInstance => o.enumInstances

end Outline

theorem Api.ids_outline (a : Api) (kind : EntityKind) : a.outline.ids kind = a.ids kind := by
  cases kind with
  | module | «class» | function | enum => exact Ascending.eq_of_toList_eq (List.map_map ..)
  | parameter | «attribute» | result | enumInstance => rfl

namespace Member

/-- The ids of a kind in the entries of a member. -/
def outlineIds (ctx : ModuleContext) (m : Member) : EntityKind → List String
  | .module => []
  | .class => m.classOutline?.toList.map ClassOutline.id
  | .function => (m.functionOutline? ctx).toList.map FunctionOutline.id
  | .enum => m.enumOutline?.toList.map EnumOutline.id
  | .parameter => (m.functionOutline? ctx).toList.flatMap FunctionOutline.parameters
  | .attribute => m.classOutline?.toList.flatMap ClassOutline.attributes
  | .result => (m.functionOutline? ctx).toList.flatMap FunctionOutline.results
  | .enumInstance => m.enumOutline?.toList.flatMap EnumOutline.instances

theorem declares_iff {ctx : ModuleContext} {m : Member} {kind : EntityKind} {id : String} :
    m.Declares ctx kind id ↔ ∃ l, m.label? = some l ∧ ((l.kind = kind ∧ id = l.id)
      ∨ ∃ name, (kind, name) ∈ m.parts ctx ∧ Id.child l.id name = id) := by
  constructor
  · rintro (hl | ⟨hl, hpart⟩)
    · exact ⟨_, hl, .inl ⟨rfl, rfl⟩⟩
    · exact ⟨_, hl, .inr ⟨_, hpart, rfl⟩⟩
  · rintro ⟨l, hl, ⟨rfl, rfl⟩ | ⟨name, hpart, rfl⟩⟩
    · exact .self hl
    · exact .part hl hpart

theorem mem_outlineIds {ctx : ModuleContext} {m : Member} {kind : EntityKind} {id : String} :
    id ∈ m.outlineIds ctx kind ↔ m.Declares ctx kind id := by
  rw [declares_iff]
  cases m with
  | «class» scope head members =>
    cases kind <;>
      simp [outlineIds, label?, parts, classOutline?, functionOutline?, enumOutline?, Label.id]
  | enum scope head body =>
    cases kind <;>
      simp [outlineIds, label?, parts, classOutline?, functionOutline?, enumOutline?, Label.id]
  | function scope head body =>
    cases kind with
    | result =>
      simp only [outlineIds, functionOutline?, Option.toList_some, List.flatMap_singleton,
        List.mem_map, label?, parts, List.mem_append, Option.some.injEq, exists_eq_left']
      simp only [reduceCtorEq, false_and, Prod.mk.injEq, and_false, exists_false, false_or,
        true_and, Label.id]
      constructor
      · rintro ⟨r, hr, rfl⟩
        exact ⟨r.name, ⟨r, hr, rfl⟩, (ctx.id_of_mem_results hr).symm⟩
      · rintro ⟨name, ⟨r, hr, rfl⟩, rfl⟩
        exact ⟨r, hr, ctx.id_of_mem_results hr⟩
    | module | «class» | function | parameter | «attribute» | enum | enumInstance =>
      simp [outlineIds, label?, parts, classOutline?, functionOutline?, enumOutline?, Label.id]
  | assignment a =>
    cases kind <;> simp [outlineIds, label?, classOutline?, functionOutline?, enumOutline?]

end Member

namespace SourceFile

theorem outline_ids (f : SourceFile) (ctx : ModuleContext) (kind : EntityKind) :
    (f.outline ctx).ids kind = Ascending.ofList
      ((if kind = .module then [Id.ofPath f.path] else [])
        ++ (Member.withBelowIn (f.members ctx)).flatMap fun m => m.outlineIds ctx kind) := by
  cases kind with
  | module => simp [Outline.ids, outline, Member.outlineIds, Table.keys_ofList, HasId.id]
  | «class» | function | enum =>
    simp [Outline.ids, outline, Member.outlineIds, Table.keys_ofList,
      List.filterMap_eq_flatMap_toList, List.map_flatMap, HasId.id]
  | parameter | «attribute» | result | enumInstance =>
    simp [Outline.ids, outline, Member.outlineIds, List.filterMap_eq_flatMap_toList,
      List.flatMap_assoc]

/-- The ids of a file's model are those that the file declares. -/
theorem mem_ids_model {f : SourceFile} {ctx : ModuleContext} {kind : EntityKind} {id : String} :
    id ∈ ((f.model ctx).ids kind).toList ↔ f.Declares ctx kind id := by
  rw [← Api.ids_outline, f.model_outline, outline_ids, NameSet.mem_ofList, List.mem_append,
    List.mem_flatMap, Declares]
  simp only [Member.mem_outlineIds]
  refine or_congr_left ?_
  split <;> simp [*]

end SourceFile

end ApiSurface
