import ApiSurface.Proofs.EntityIds
/-!
# Rows and what they refer to

Rows refer to each other by the ids in their child lists.  A reference is a kind of entity and an id
(`Ref`): each row has one of its own, and its child lists hold those of others.

A model is *closed* when every reference in a child list is that of some row, and *nested* when the
ids in a child list lie below the id of the row that lists them.  Merging models keeps both, however
their ids meet: a row that gives way to an earlier one leaves its id in the table.
-/

namespace ApiSurface

/-! ## 1. Rows and references -/

/-- A kind of entity and an id. -/
structure Ref where
  kind : EntityKind
  id : String
  deriving DecidableEq

namespace Entity

/-- What refers to a row. -/
def ref : Entity → Ref
  | .module r => ⟨.module, r.id⟩
  | .class r => ⟨.class, r.id⟩
  | .function r => ⟨.function, r.id⟩
  | .parameter r => ⟨.parameter, r.id⟩
  | .attribute r => ⟨.attribute, r.id⟩
  | .result r => ⟨.result, r.id⟩
  | .enum r => ⟨.enum, r.id⟩
  | .enumInstance r => ⟨.enumInstance, r.id⟩

/-- What the child lists of a row refer to. -/
def children : Entity → List Ref
  | .module r => r.classes.map (Ref.mk .class) ++ r.functions.map (Ref.mk .function)
    ++ r.enums.map (Ref.mk .enum)
  | .class r => r.methods.map (Ref.mk .function) ++ r.constructor?.toList.map (Ref.mk .function)
    ++ r.classes.map (Ref.mk .class) ++ r.attributes.map (Ref.mk .attribute)
  | .function r => r.parameters.map (Ref.mk .parameter) ++ r.results.map (Ref.mk .result)
  | .enum r => r.instances.map (Ref.mk .enumInstance)
  | .parameter _ => []
  | .attribute _ => []
  | .result _ => []
  | .enumInstance _ => []

/-- Child lists never refer to modules. -/
theorem kind_of_mem_children {e : Entity} {r : Ref} (h : r ∈ e.children) : r.kind ≠ .module := by
  cases e <;> simp only [children, List.mem_append, List.mem_map, List.not_mem_nil] at h <;>
    grind

end Entity

namespace Api

/-- That a row stands in the table of its kind. -/
def Holds (a : Api) : Entity → Prop
  | .module r => r ∈ a.modules.toList
  | .class r => r ∈ a.classes.toList
  | .function r => r ∈ a.functions.toList
  | .parameter r => r ∈ a.parameters.toList
  | .attribute r => r ∈ a.attributes.toList
  | .result r => r ∈ a.results.toList
  | .enum r => r ∈ a.enums.toList
  | .enumInstance r => r ∈ a.enumInstances.toList

/-- The ids of a kind are those of the rows of this kind. -/
theorem mem_ids_iff {a : Api} {r : Ref} :
    r.id ∈ (a.ids r.kind).toList ↔ ∃ e, a.Holds e ∧ e.ref = r := by
  obtain ⟨kind, id⟩ := r
  constructor
  · intro h
    cases kind <;> obtain ⟨row, hrow, rfl⟩ := Table.mem_keys.1 h
    exacts [⟨.module row, hrow, rfl⟩, ⟨.class row, hrow, rfl⟩, ⟨.function row, hrow, rfl⟩,
      ⟨.parameter row, hrow, rfl⟩, ⟨.attribute row, hrow, rfl⟩, ⟨.result row, hrow, rfl⟩,
      ⟨.enum row, hrow, rfl⟩, ⟨.enumInstance row, hrow, rfl⟩]
  · rintro ⟨e, he, href⟩
    cases e <;> cases href <;> exact Table.mem_keys.2 ⟨_, he, rfl⟩

/-- A reference tells the row. -/
theorem Holds.eq_of_ref_eq {a : Api} {e e' : Entity} (he : a.Holds e) (he' : a.Holds e')
    (h : e.ref = e'.ref) : e = e' := by
  cases e <;> cases e' <;>
    simp only [Entity.ref, Ref.mk.injEq, reduceCtorEq, false_and, true_and] at h <;>
    exact congrArg _ (Table.eq_of_id_eq he he' h)

/-- Whether every reference in a child list is that of a row. -/
def Closed (a : Api) : Prop :=
  ∀ e, a.Holds e → ∀ r ∈ e.children, r.id ∈ (a.ids r.kind).toList

/-- Whether the ids in the child lists of a row lie below its own. -/
def Nested (a : Api) : Prop :=
  ∀ e, a.Holds e → ∀ r ∈ e.children, ∃ n, r.id = Id.child e.ref.id n

/-! ## 2. Dangling references -/

theorem mem_missing {ρ : Type} [HasId ρ] {t : Table ρ} {ids : List String} {id : String} :
    id ∈ missing t ids ↔ id ∈ ids ∧ id ∉ t.keys.toList := by
  rw [missing, List.mem_filter, Bool.not_eq_true', ← Bool.not_eq_true, Table.contains_iff]

theorem exists_mem_map_ref {kind : EntityKind} {ids : List String} {id : String}
    {p : EntityKind → Prop} :
    (∃ r ∈ ids.map (Ref.mk kind), r.id = id ∧ p r.kind) ↔ id ∈ ids ∧ p kind := by
  simp

theorem exists_mem_append_ref {l l' : List Ref} {p : Ref → Prop} :
    (∃ r ∈ l ++ l', p r) ↔ (∃ r ∈ l, p r) ∨ ∃ r ∈ l', p r := by
  simp only [List.mem_append, or_and_right, exists_or]

/-- Only modules, classes, functions and enums list others. -/
theorem exists_holds_iff {a : Api} {p : Entity → Prop}
    (hp : ∀ e : Entity, e.children = [] → ¬ p e) :
    (∃ e, a.Holds e ∧ p e)
      ↔ (((∃ m ∈ a.modules.toList, p (.module m)) ∨ ∃ c ∈ a.classes.toList, p (.class c))
        ∨ ∃ f ∈ a.functions.toList, p (.function f)) ∨ ∃ r ∈ a.enums.toList, p (.enum r) := by
  constructor
  · rintro ⟨e, he, h⟩
    cases e with
    | module m => exact .inl (.inl (.inl ⟨m, he, h⟩))
    | «class» c => exact .inl (.inl (.inr ⟨c, he, h⟩))
    | function f => exact .inl (.inr ⟨f, he, h⟩)
    | enum r => exact .inr ⟨r, he, h⟩
    | parameter | «attribute» | result | enumInstance => exact absurd h (hp _ rfl)
  · rintro (((⟨m, hm, h⟩ | ⟨c, hc, h⟩) | ⟨f, hf, h⟩) | ⟨r, hr, h⟩)
    exacts [⟨.module m, hm, h⟩, ⟨.class c, hc, h⟩, ⟨.function f, hf, h⟩, ⟨.enum r, hr, h⟩]

/-- The dangling references are the ids in child lists to which no row answers. -/
theorem mem_danglingReferences {a : Api} {id : String} :
    id ∈ a.danglingReferences
      ↔ ∃ e, a.Holds e ∧ ∃ r ∈ e.children, r.id = id ∧ id ∉ (a.ids r.kind).toList := by
  have hlist : ∀ {kind : EntityKind} {ids : List String},
      (∃ r ∈ ids.map (Ref.mk kind), r.id = id ∧ id ∉ (a.ids r.kind).toList)
        ↔ id ∈ ids ∧ id ∉ (a.ids kind).toList :=
    exists_mem_map_ref (p := fun kind => id ∉ (a.ids kind).toList)
  rw [danglingReferences, NameSet.mem_ofList, exists_holds_iff (by simp +contextual)]
  simp only [Entity.children, exists_mem_append_ref, hlist]
  simp only [List.mem_append, List.mem_flatMap, mem_missing]
  rfl

theorem danglingReferences_eq_nil_iff {a : Api} : a.danglingReferences = [] ↔ a.Closed := by
  rw [List.eq_nil_iff_forall_not_mem]
  constructor
  · intro h e he r hr
    by_contra hmissing
    exact h r.id (mem_danglingReferences.2 ⟨e, he, r, hr, rfl, hmissing⟩)
  · intro h id hid
    obtain ⟨e, he, r, hr, rfl, hmissing⟩ := mem_danglingReferences.1 hid
    exact hmissing (h e he r hr)

/-! ## 3. Merging and adding -/

theorem Holds.of_merge {a b : Api} {e : Entity} (h : (a.merge b).Holds e) :
    a.Holds e ∨ b.Holds e := by
  cases e <;> exact Ascending.mem_foldl_insert h

theorem Holds.of_foldl_merge {parts : List Api} {a : Api} {e : Entity}
    (h : (parts.foldl merge a).Holds e) : a.Holds e ∨ ∃ b ∈ parts, b.Holds e := by
  induction parts generalizing a with
  | nil => exact .inl h
  | cons b parts ih =>
    rcases ih h with h | ⟨c, hc, h⟩
    · rcases h.of_merge with h | h
      · exact .inl h
      · exact .inr ⟨b, List.mem_cons_self, h⟩
    · exact .inr ⟨c, List.mem_cons_of_mem b hc, h⟩

/-- A row that is alone with its reference among all rows stays. -/
theorem holds_foldl_merge_of_alone {parts : List Api} {a b : Api} {e : Entity} (hb : b ∈ parts)
    (he : b.Holds e) (hfirst : ∀ e', a.Holds e' → e'.ref = e.ref → e' = e)
    (halone : ∀ c ∈ parts, ∀ e', c.Holds e' → e'.ref = e.ref → e' = e) :
    (parts.foldl merge a).Holds e := by
  have hid : e.ref.id ∈ ((parts.foldl merge a).ids e.ref.kind).toList :=
    mem_ids_foldl_merge.2 (.inr ⟨b, hb, mem_ids_iff.2 ⟨e, he, rfl⟩⟩)
  obtain ⟨e', he', href⟩ := mem_ids_iff.1 hid
  rcases he'.of_foldl_merge with hrow | ⟨c, hc, hrow⟩
  · exact hfirst e' hrow href ▸ he'
  · exact halone c hc e' hrow href ▸ he'

/-- Adding entities is merging the models that have one entity each. -/
theorem foldl_add_eq (es : List Entity) (a : Api) :
    es.foldl add a = (es.map (add {})).foldl merge a := by
  induction es generalizing a with
  | nil => rfl
  | cons e es ih =>
    have hstep : a.add e = a.merge (add {} e) := by cases e <;> rfl
    rw [List.foldl_cons, hstep, ih]
    rfl

theorem holds_add_empty {e e' : Entity} : (add {} e').Holds e ↔ e = e' := by
  constructor
  · intro h
    cases e' <;> cases e <;> rcases h with _ | ⟨_, ⟨⟩⟩ <;> rfl
  · rintro rfl
    cases e <;> exact List.mem_singleton_self _

theorem not_holds_empty (e : Entity) : ¬ ({} : Api).Holds e := by
  cases e <;> exact List.not_mem_nil

/-- A row is added if no row of its kind has its id. -/
theorem holds_add {a : Api} {x e : Entity} :
    (a.add x).Holds e ↔ a.Holds e ∨ e = x ∧ x.ref.id ∉ (a.ids x.ref.kind).toList := by
  cases x <;> cases e <;> first
    | exact (or_iff_left fun h => by cases h.1).symm
    | exact Table.mem_insert.trans (or_congr_right (and_congr_left' (by simp)))

/-- The rows of a model built from entities are among them. -/
theorem Holds.of_foldl_add {es : List Entity} {e : Entity} (h : (es.foldl add {}).Holds e) :
    e ∈ es := by
  rw [foldl_add_eq] at h
  rcases h.of_foldl_merge with h | ⟨b, hb, h⟩
  · exact absurd h (not_holds_empty e)
  · obtain ⟨e', he', rfl⟩ := List.mem_map.1 hb
    exact holds_add_empty.1 h ▸ he'

theorem holds_foldl_add_of_alone {es : List Entity} {e : Entity} (h : e ∈ es)
    (halone : ∀ e' ∈ es, e'.ref = e.ref → e' = e) : (es.foldl add {}).Holds e := by
  rw [foldl_add_eq]
  refine holds_foldl_merge_of_alone (List.mem_map_of_mem h) (holds_add_empty.2 rfl) ?_ ?_
  · intro e' he'
    exact absurd he' (not_holds_empty e')
  · intro c hc e' he' href
    obtain ⟨e₀, he₀, rfl⟩ := List.mem_map.1 hc
    rw [holds_add_empty.1 he'] at href ⊢
    exact halone e₀ he₀ href

/-! ## 4. Closed and nested models -/

theorem Closed.foldl_merge {parts : List Api} {a : Api} (h : a.Closed)
    (hparts : ∀ b ∈ parts, b.Closed) : (parts.foldl merge a).Closed := by
  intro e he r hr
  rw [mem_ids_foldl_merge]
  rcases he.of_foldl_merge with he | ⟨b, hb, he⟩
  · exact .inl (h e he r hr)
  · exact .inr ⟨b, hb, hparts b hb e he r hr⟩

theorem Nested.foldl_merge {parts : List Api} {a : Api} (h : a.Nested)
    (hparts : ∀ b ∈ parts, b.Nested) : (parts.foldl merge a).Nested := by
  intro e he r hr
  rcases he.of_foldl_merge with he | ⟨b, hb, he⟩
  · exact h e he r hr
  · exact hparts b hb e he r hr

/-! ## 5. Reachable rows -/

/-- That some row lists a reference. -/
def Listed (a : Api) (r : Ref) : Prop := ∃ e, a.Holds e ∧ r ∈ e.children

/-- That a row can be reached from a module along child lists. -/
inductive Reachable (a : Api) : Entity → Prop
  | module {m : ModuleRow} (h : a.Holds (.module m)) : Reachable a (.module m)
  | child {e e' : Entity} (h : Reachable a e) (h' : a.Holds e') (hlisted : e'.ref ∈ e.children) :
      Reachable a e'

/-- Whether every row can be reached. -/
def NoOrphans (a : Api) : Prop := ∀ e, a.Holds e → a.Reachable e

theorem Reachable.holds {a : Api} {e : Entity} (h : a.Reachable e) : a.Holds e := by
  cases h with
  | module h => exact h
  | child _ h => exact h

/-- Every row of a nested model can be reached as soon as every row is listed, the modules apart:
the way up along the rows that list it comes to an end, since ids get shorter. -/
theorem Nested.reachable {a : Api} (h : a.Nested)
    (hlisted : ∀ e, a.Holds e → e.ref.kind ≠ .module → a.Listed e.ref) (e : Entity)
    (he : a.Holds e) : a.Reachable e := by
  induction hn : e.ref.id.toList.length using Nat.strongRecOn generalizing e with
  | ind n ih =>
    by_cases hkind : e.ref.kind = .module
    · cases e <;> cases hkind
      exact .module he
    · obtain ⟨e', he', hmem⟩ := hlisted e he hkind
      obtain ⟨name, hid⟩ := h e' he' e.ref hmem
      have hshorter : e'.ref.id.toList.length < n := by
        rw [← hn, hid]
        exact Id.length_lt_child e'.ref.id name
      exact .child (ih _ hshorter e' he' rfl) he hmem

theorem Nested.noOrphans_iff {a : Api} (h : a.Nested) :
    a.NoOrphans ↔ ∀ e, a.Holds e → e.ref.kind ≠ .module → a.Listed e.ref := by
  constructor
  · intro hall e he hkind
    cases hall e he with
    | module => exact absurd rfl hkind
    | child hparent _ hmem => exact ⟨_, hparent.holds, hmem⟩
  · intro hlisted e he
    exact h.reachable hlisted e he

end Api

end ApiSurface
