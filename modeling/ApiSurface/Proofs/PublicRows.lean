import ApiSurface.Proofs.References
import Mathlib.Data.List.Chain
import Mathlib.Data.List.Perm.Subperm
import Mathlib.Logic.Relation
/-!
# The rows of the public view

A row is *offered* when it can be reached from a module along child lists through rows that are
public; parameters, results and instances need no such mark.  The public view keeps the offered rows
and no others, with the child lists of modules and classes shrunk to rows that are public
(`holds_publicView`).  The classes take an argument of their own, since they are collected by a
descent of bounded depth.

From this it follows that the view of a closed model is closed again, and that each of its rows can
be reached.  A descent deeper than there are classes meets one of them twice, so a model without a
view has classes nested in a circle (`exists_circle_of_publicView`); in a nested model there is no
circle, since going down ids get longer.
-/

namespace ApiSurface

/-! ## 1. Offered rows -/

/-- Whether rows of a kind say nothing about being public. -/
def EntityKind.isUnmarked : EntityKind → Bool
  | .module | .parameter | .result | .enumInstance => true
  | .class | .function | .attribute | .enum => false

namespace Entity

/-- Whether nothing about a row itself keeps it out of the public view. -/
def isOpen : Entity → Bool
  | .class r => r.isPublic
  | .function r => r.isPublic
  | .attribute r => r.isPublic
  | .enum r => r.isPublic
  | .module _ | .parameter _ | .result _ | .enumInstance _ => true

/-- A row of a kind without a mark is open. -/
theorem isOpen_of_isUnmarked {e : Entity} (h : e.ref.kind.isUnmarked = true) : e.isOpen = true := by
  cases e with
  | module | parameter | result | enumInstance => rfl
  | «class» | function | «attribute» | enum => cases h

/-- A row with its child lists shrunk to what is public. -/
def shrink (a : Api) : Entity → Entity
  | .module r => .module (a.shrinkModule r)
  | .class r => .class (a.shrinkClass r)
  | e => e

@[simp] theorem shrink_ref (a : Api) (e : Entity) : (e.shrink a).ref = e.ref := by
  cases e <;> rfl

@[simp] theorem isOpen_shrink (a : Api) (e : Entity) : (e.shrink a).isOpen = e.isOpen := by
  cases e <;> rfl

/-- Only modules and classes shrink. -/
theorem exists_shrink_eq {a : Api} {e : Entity} {p : Entity → Prop} (hmodule : e.ref.kind ≠ .module)
    (hclass : e.ref.kind ≠ .class) : (∃ e₀, p e₀ ∧ e₀.shrink a = e) ↔ p e := by
  have hsame : ∀ e₀ : Entity, e₀.ref.kind ≠ .module → e₀.ref.kind ≠ .class → e₀.shrink a = e₀ := by
    intro e₀ hmodule hclass
    cases e₀ with
    | module => exact absurd rfl hmodule
    | «class» => exact absurd rfl hclass
    | function | enum | parameter | «attribute» | result | enumInstance => rfl
  constructor
  · rintro ⟨e₀, hp, rfl⟩
    rw [shrink_ref] at hmodule hclass
    rwa [hsame e₀ hmodule hclass]
  · intro hp
    exact ⟨e, hp, hsame e hmodule hclass⟩

end Entity

namespace Api

/-- That a row can be reached from a module through open rows. -/
inductive Offered (a : Api) : Entity → Prop
  | module {m : ModuleRow} (h : a.Holds (.module m)) : Offered a (.module m)
  | child {e e' : Entity} (h : Offered a e) (h' : a.Holds e') (hlisted : e'.ref ∈ e.children)
      (hopen : e'.isOpen = true) : Offered a e'

theorem Offered.holds {a : Api} {e : Entity} (h : a.Offered e) : a.Holds e := by
  cases h with
  | module h => exact h
  | child _ h => exact h

theorem Offered.isOpen {a : Api} {e : Entity} (h : a.Offered e) : e.isOpen = true := by
  cases h with
  | module => rfl
  | child _ _ _ hopen => exact hopen

/-! ## 2. Open rows by reference -/

section Lookup

variable {a : Api} {id : String}

theorem filter_get?_eq_some {ρ : Type} [HasId ρ] {t : Table ρ} {p : ρ → Bool} {r : ρ} :
    (t.get? id).filter p = some r ↔ (r ∈ t.toList ∧ HasId.id r = id) ∧ p r = true := by
  rw [Option.filter_eq_some_iff, Table.get?_eq_some_iff]

theorem publicClass?_eq_some {c : ClassRow} :
    a.publicClass? id = some c ↔ (c ∈ a.classes.toList ∧ c.id = id) ∧ c.isPublic = true :=
  filter_get?_eq_some

/-- The open row that a reference leads to. -/
def open? (a : Api) : Ref → Option Entity
  | ⟨.module, id⟩ => (a.modules.get? id).map .module
  | ⟨.class, id⟩ => (a.publicClass? id).map .class
  | ⟨.function, id⟩ => (a.publicFunction? id).map .function
  | ⟨.parameter, id⟩ => (a.parameters.get? id).map .parameter
  | ⟨.attribute, id⟩ => (a.publicAttribute? id).map .attribute
  | ⟨.result, id⟩ => (a.results.get? id).map .result
  | ⟨.enum, id⟩ => (a.publicEnum? id).map .enum
  | ⟨.enumInstance, id⟩ => (a.enumInstances.get? id).map .enumInstance

theorem open?_eq_some {r : Ref} {e : Entity} :
    a.open? r = some e ↔ a.Holds e ∧ e.ref = r ∧ e.isOpen = true := by
  obtain ⟨kind, id⟩ := r
  constructor
  · intro h
    cases kind <;> obtain ⟨row, hrow, rfl⟩ := Option.map_eq_some_iff.1 h
    case module | parameter | result | enumInstance =>
      obtain ⟨hmem, rfl⟩ := Table.get?_eq_some_iff.1 hrow
      exact ⟨hmem, rfl, rfl⟩
    case «class» | function | «attribute» | enum =>
      obtain ⟨⟨hmem, rfl⟩, hpublic⟩ := filter_get?_eq_some.1 hrow
      exact ⟨hmem, rfl, hpublic⟩
  · rintro ⟨he, href, hopen⟩
    cases e with
    | module | parameter | result | enumInstance =>
      cases href
      exact Option.map_eq_some_iff.2 ⟨_, Table.get?_eq_some_iff.2 ⟨he, rfl⟩, rfl⟩
    | «class» | function | «attribute» | enum =>
      cases href
      exact Option.map_eq_some_iff.2 ⟨_, filter_get?_eq_some.2 ⟨⟨he, rfl⟩, hopen⟩, rfl⟩

end Lookup

/-- Whether a reference leads to an open row. -/
def isOpenAt (a : Api) (r : Ref) : Bool := (a.open? r).isSome

theorem isOpenAt_iff {a : Api} {r : Ref} :
    a.isOpenAt r = true ↔ ∃ e, a.Holds e ∧ e.ref = r ∧ e.isOpen = true := by
  rw [isOpenAt, Option.isSome_iff_exists]
  exact exists_congr fun e => open?_eq_some

/-- A reference to a row of a kind that carries no mark is open if there is the row. -/
theorem isOpenAt_of_isUnmarked {a : Api} {r : Ref} (hkind : r.kind.isUnmarked = true)
    (hrow : r.id ∈ (a.ids r.kind).toList) : a.isOpenAt r = true := by
  obtain ⟨e, he, rfl⟩ := mem_ids_iff.1 hrow
  exact isOpenAt_iff.2 ⟨e, he, rfl, Entity.isOpen_of_isUnmarked hkind⟩

/-- Whether a reference stays in the child list of a row that is shrunk. -/
def staysIn (a : Api) (r : Ref) : Bool := a.isOpenAt r || r.kind.isUnmarked

theorem staysIn_eq_isOpenAt {a : Api} {r : Ref} (hrow : r.id ∈ (a.ids r.kind).toList) :
    a.staysIn r = a.isOpenAt r := by
  cases hkind : r.kind.isUnmarked with
  | false => rw [staysIn, hkind, Bool.or_false]
  | true => rw [staysIn, isOpenAt_of_isUnmarked hkind hrow, Bool.true_or]

section Marked

variable (a : Api) (id : String)

theorem isSome_publicClass? : (a.publicClass? id).isSome = a.staysIn ⟨.class, id⟩ := by
  simp [staysIn, isOpenAt, open?, EntityKind.isUnmarked]

theorem isSome_publicFunction? : (a.publicFunction? id).isSome = a.staysIn ⟨.function, id⟩ := by
  simp [staysIn, isOpenAt, open?, EntityKind.isUnmarked]

theorem isSome_publicAttribute? : (a.publicAttribute? id).isSome = a.staysIn ⟨.attribute, id⟩ := by
  simp [staysIn, isOpenAt, open?, EntityKind.isUnmarked]

theorem isSome_publicEnum? : (a.publicEnum? id).isSome = a.staysIn ⟨.enum, id⟩ := by
  simp [staysIn, isOpenAt, open?, EntityKind.isUnmarked]

end Marked

theorem map_filter_ref {kind : EntityKind} {ids : List String} {p : String → Bool} {q : Ref → Bool}
    (hp : ∀ id, p id = q ⟨kind, id⟩) :
    (ids.filter p).map (Ref.mk kind) = (ids.map (Ref.mk kind)).filter q := by
  rw [List.filter_map]
  exact congrArg (List.map _) (List.filter_congr fun id _ => hp id)

/-- Shrinking a row leaves out references.  Those to kinds without a mark stay, even to no row. -/
theorem shrink_children (a : Api) (e : Entity) :
    (e.shrink a).children = e.children.filter a.staysIn := by
  have hkept : (∀ r ∈ e.children, r.kind.isUnmarked = true) →
      e.children = e.children.filter a.staysIn := by
    intro hkind
    refine (List.filter_eq_self.2 fun r hr => ?_).symm
    rw [staysIn, hkind r hr, Bool.or_true]
  cases e with
  | module m =>
    simp only [Entity.shrink, Entity.children, shrinkModule, List.filter_append,
      map_filter_ref a.isSome_publicClass?, map_filter_ref a.isSome_publicFunction?,
      map_filter_ref a.isSome_publicEnum?]
  | «class» c =>
    have hconstructor : (c.constructor?.filter fun id => (a.publicFunction? id).isSome).toList
        = c.constructor?.toList.filter fun id => (a.publicFunction? id).isSome := by
      cases c.constructor? with
      | none => rfl
      | some id => cases hp : (a.publicFunction? id).isSome <;> simp [Option.filter, hp]
    simp only [Entity.shrink, Entity.children, shrinkClass, List.filter_append, hconstructor,
      map_filter_ref a.isSome_publicClass?, map_filter_ref a.isSome_publicFunction?,
      map_filter_ref a.isSome_publicAttribute?]
  | function f =>
    refine hkept fun r hr => ?_
    rcases List.mem_append.1 hr with hr | hr <;> obtain ⟨id, -, rfl⟩ := List.mem_map.1 hr <;> rfl
  | enum r =>
    refine hkept fun r hr => ?_
    obtain ⟨id, -, rfl⟩ := List.mem_map.1 hr
    rfl
  | parameter | «attribute» | result | enumInstance => rfl

/-- In a closed model, shrinking a row leaves the references to open rows. -/
theorem Closed.shrink_children {a : Api} (h : a.Closed) {e : Entity} (he : a.Holds e) :
    (e.shrink a).children = e.children.filter a.isOpenAt := by
  rw [Api.shrink_children]
  exact List.filter_congr fun r hr => staysIn_eq_isOpenAt (h e he r hr)

/-! ## 3. The tables of the view -/

/-- An offered row that is no module is an open row which an offered row lists. -/
theorem offered_iff_listed {a : Api} {e : Entity} (hkind : e.ref.kind ≠ .module) :
    a.Offered e ↔ (∃ e', a.Offered e' ∧ e.ref ∈ e'.children) ∧ a.open? e.ref = some e := by
  constructor
  · intro h
    cases h with
    | module => exact absurd rfl hkind
    | child h h' hlisted hopen => exact ⟨⟨_, h, hlisted⟩, open?_eq_some.2 ⟨h', rfl, hopen⟩⟩
  · rintro ⟨⟨e', he', hlisted⟩, hopen⟩
    obtain ⟨h, -, hopen⟩ := open?_eq_some.1 hopen
    exact .child he' h hlisted hopen

/-- How rows of a type are entities of a kind. -/
structure OfKind {ρ : Type} [HasId ρ] (kind : EntityKind) (mk : ρ → Entity) : Prop where
  inj : ∀ r r', mk r = mk r' → r = r'
  ref : ∀ r, (mk r).ref = ⟨kind, HasId.id r⟩

namespace OfKind

protected theorem module : OfKind .module Entity.module :=
  ⟨fun _ _ => Entity.module.inj, fun _ => rfl⟩
protected theorem «class» : OfKind .class Entity.class :=
  ⟨fun _ _ => Entity.class.inj, fun _ => rfl⟩
protected theorem function : OfKind .function Entity.function :=
  ⟨fun _ _ => Entity.function.inj, fun _ => rfl⟩
protected theorem parameter : OfKind .parameter Entity.parameter :=
  ⟨fun _ _ => Entity.parameter.inj, fun _ => rfl⟩
protected theorem «attribute» : OfKind .attribute Entity.attribute :=
  ⟨fun _ _ => Entity.attribute.inj, fun _ => rfl⟩
protected theorem result : OfKind .result Entity.result :=
  ⟨fun _ _ => Entity.result.inj, fun _ => rfl⟩
protected theorem enum : OfKind .enum Entity.enum := ⟨fun _ _ => Entity.enum.inj, fun _ => rfl⟩
protected theorem enumInstance : OfKind .enumInstance Entity.enumInstance :=
  ⟨fun _ _ => Entity.enumInstance.inj, fun _ => rfl⟩

end OfKind

section Tables

variable {a : Api} {ρ : Type} [HasId ρ] {kind : EntityKind} {mk : ρ → Entity}

/-- Looking up whatever offered rows list of a kind gives the offered rows of this kind. -/
theorem mem_filterMap_open (hmk : OfKind kind mk) (hkind : kind ≠ .module) {ids : List String}
    {look : String → Option ρ} (hlook : ∀ id, (look id).map mk = a.open? ⟨kind, id⟩)
    (hids : ∀ id, id ∈ ids ↔ ∃ e, a.Offered e ∧ ⟨kind, id⟩ ∈ e.children) {r : ρ} :
    r ∈ ids.filterMap look ↔ a.Offered (mk r) := by
  have hsome : ∀ id, look id = some r ↔ a.open? ⟨kind, id⟩ = some (mk r) := by
    intro id
    rw [← hlook, Option.map_eq_some_iff]
    exact ⟨fun h => ⟨r, h, rfl⟩, fun ⟨r', h, heq⟩ => hmk.inj r' r heq ▸ h⟩
  rw [offered_iff_listed (by rw [hmk.ref]; exact hkind), hmk.ref, ← hids, List.mem_filterMap]
  constructor
  · rintro ⟨id, hid, hr⟩
    have hopen := (hsome id).1 hr
    have href : id = HasId.id r := by
      have := (open?_eq_some.1 hopen).2.1
      rw [hmk.ref] at this
      exact (congrArg Ref.id this).symm
    subst href
    exact ⟨hid, hopen⟩
  · rintro ⟨hid, hopen⟩
    exact ⟨_, hid, (hsome _).2 hopen⟩

/-- The table of a list of offered rows has all of them, also after changes to other fields than the
ids. -/
theorem mem_ofList_offered (hmk : OfKind kind mk) {rows : List ρ}
    (hrows : ∀ r, r ∈ rows ↔ a.Offered (mk r)) {f : ρ → ρ} (hf : ∀ r, HasId.id (f r) = HasId.id r)
    {r : ρ} :
    r ∈ (Ascending.ofList (rows.map f) : Table ρ).toList ↔ ∃ r₀, a.Offered (mk r₀) ∧ f r₀ = r := by
  constructor
  · intro h
    obtain ⟨r₀, hr₀, heq⟩ := List.mem_map.1 (Ascending.mem_of_mem_ofList h)
    exact ⟨r₀, (hrows r₀).1 hr₀, heq⟩
  · rintro ⟨r₀, hoffered, rfl⟩
    have hkey : HasId.id r₀ ∈ (Table.keys (Ascending.ofList (rows.map f))).toList := by
      rw [Table.keys_ofList, NameSet.mem_ofList, List.map_map, List.mem_map]
      exact ⟨r₀, (hrows r₀).2 hoffered, hf r₀⟩
    obtain ⟨r, hr, hid⟩ := Table.mem_keys.1 hkey
    obtain ⟨r₁, hr₁, rfl⟩ := List.mem_map.1 (Ascending.mem_of_mem_ofList hr)
    have hsame : mk r₁ = mk r₀ := by
      refine ((hrows r₁).1 hr₁).holds.eq_of_ref_eq hoffered.holds ?_
      rw [hmk.ref, hmk.ref, ← hid, hf]
    rw [← hmk.inj _ _ hsame]
    exact hr

/-- A table of offered rows that do not shrink. -/
theorem mem_ofList_of_offered (hmk : OfKind kind mk) (hmodule : kind ≠ .module)
    (hclass : kind ≠ .class) {rows : List ρ} (hrows : ∀ r, r ∈ rows ↔ a.Offered (mk r)) {r : ρ} :
    r ∈ (Ascending.ofList rows : Table ρ).toList ↔ ∃ e₀, a.Offered e₀ ∧ e₀.shrink a = mk r := by
  rw [Entity.exists_shrink_eq (by rwa [hmk.ref]) (by rwa [hmk.ref])]
  simpa using mem_ofList_offered (r := r) hmk hrows (f := id) fun _ => rfl

end Tables

/-! ## 4. The kept classes -/

section Classes

variable {a : Api}

theorem mem_mapM {α β : Type} {g : α → Option β} {l : List α} {l' : List β}
    (h : l.mapM g = some l') {x : α} (hx : x ∈ l) : ∃ y ∈ l', g x = some y := by
  induction l generalizing l' with
  | nil => cases hx
  | cons x' l ih =>
    rw [List.mapM_cons] at h
    obtain ⟨y, hy, h⟩ := Option.bind_eq_some_iff.1 h
    obtain ⟨ys, hys, h⟩ := Option.bind_eq_some_iff.1 h
    cases h
    rcases List.mem_cons.1 hx with rfl | hx
    · exact ⟨y, List.mem_cons_self, hy⟩
    · obtain ⟨z, hz, hxz⟩ := ih hys hx
      exact ⟨z, List.mem_cons_of_mem y hz, hxz⟩

/-- What a descent collects below an id that an offered row lists is offered. -/
theorem offered_of_classesBelow {depth : Nat} {id : String} {rows : List ClassRow}
    (h : a.classesBelow depth id = some rows) (hid : ∃ e, a.Offered e ∧ ⟨.class, id⟩ ∈ e.children) :
    ∀ c ∈ rows, a.Offered (.class c) := by
  induction depth generalizing id rows with
  | zero => cases h
  | succ depth ih =>
    rw [classesBelow] at h
    cases hpublic : a.publicClass? id with
    | none =>
      rw [hpublic] at h
      cases h
      simp
    | some c =>
      rw [hpublic] at h
      obtain ⟨nested, hnested, rfl⟩ := Option.map_eq_some_iff.1 h
      obtain ⟨⟨hc, rfl⟩, hopen⟩ := publicClass?_eq_some.1 hpublic
      obtain ⟨e, he, hlisted⟩ := hid
      have hoffered : a.Offered (.class c) := .child he hc hlisted hopen
      intro d hd
      rcases List.mem_cons.1 hd with rfl | hd
      · exact hoffered
      · obtain ⟨rows, hrows, hd⟩ := List.mem_flatten.1 hd
        obtain ⟨id', hid', hbelow⟩ := exists_of_mem_mapM hnested rows hrows
        refine ih hbelow ⟨.class c, hoffered, ?_⟩ d hd
        simp [Entity.children, hid']

theorem mem_classesBelow_self {depth : Nat} {id : String} {rows : List ClassRow} {c : ClassRow}
    (h : a.classesBelow depth id = some rows) (hc : a.publicClass? id = some c) : c ∈ rows := by
  cases depth with
  | zero => cases h
  | succ depth =>
    rw [classesBelow, hc] at h
    obtain ⟨nested, -, rfl⟩ := Option.map_eq_some_iff.1 h
    exact List.mem_cons_self

/-- A descent leaves out no public class in one that it collects. -/
theorem mem_classesBelow_of_nested {depth : Nat} {id : String} {rows : List ClassRow}
    (h : a.classesBelow depth id = some rows) {c d : ClassRow} (hc : c ∈ rows) {id' : String}
    (hid' : id' ∈ c.classes) (hd : a.publicClass? id' = some d) : d ∈ rows := by
  induction depth generalizing id rows with
  | zero => cases h
  | succ depth ih =>
    rw [classesBelow] at h
    cases hpublic : a.publicClass? id with
    | none =>
      rw [hpublic] at h
      cases h
      cases hc
    | some top =>
      rw [hpublic] at h
      obtain ⟨nested, hnested, rfl⟩ := Option.map_eq_some_iff.1 h
      refine List.mem_cons_of_mem top (List.mem_flatten.2 ?_)
      rcases List.mem_cons.1 hc with rfl | hc
      · obtain ⟨rows, hrows, hbelow⟩ := mem_mapM hnested hid'
        exact ⟨rows, hrows, mem_classesBelow_self hbelow hd⟩
      · obtain ⟨rows, hrows, hc⟩ := List.mem_flatten.1 hc
        obtain ⟨_, -, hbelow⟩ := exists_of_mem_mapM hnested rows hrows
        exact ⟨rows, hrows, ih hbelow hc⟩

/-- The kept classes are the offered ones. -/
theorem mem_keptClasses {rows : List ClassRow} (h : a.keptClasses? = some rows) {c : ClassRow} :
    c ∈ rows ↔ a.Offered (.class c) := by
  obtain ⟨lists, hlists, rfl⟩ := Option.map_eq_some_iff.1 h
  constructor
  · intro hc
    obtain ⟨rows, hrows, hc⟩ := List.mem_flatten.1 hc
    obtain ⟨id, hid, hbelow⟩ := exists_of_mem_mapM hlists rows hrows
    obtain ⟨m, hm, hid⟩ := List.mem_flatMap.1 hid
    refine offered_of_classesBelow hbelow ⟨.module m, .module hm, ?_⟩ c hc
    simp [Entity.children, hid]
  · intro hoffered
    -- Along the way from a module to the class, every class on the way is kept.
    generalize he : Entity.class c = e at hoffered
    induction hoffered generalizing c with
    | module => cases he
    | child hparent hholds hlisted hopen ih =>
      subst he
      have hpublic : a.publicClass? c.id = some c := publicClass?_eq_some.2 ⟨⟨hholds, rfl⟩, hopen⟩
      rename_i parent
      cases parent with
      | module m =>
        have hid : c.id ∈ m.classes := by simpa [Entity.children, Entity.ref] using hlisted
        obtain ⟨rows, hrows, hbelow⟩ :=
          mem_mapM hlists (List.mem_flatMap.2 ⟨m, hparent.holds, hid⟩)
        exact List.mem_flatten.2 ⟨rows, hrows, mem_classesBelow_self hbelow hpublic⟩
      | «class» top =>
        have hid : c.id ∈ top.classes := by simpa [Entity.children, Entity.ref] using hlisted
        obtain ⟨rows, hrows, htop⟩ := List.mem_flatten.1 (ih rfl)
        obtain ⟨_, -, hbelow⟩ := exists_of_mem_mapM hlists rows hrows
        exact List.mem_flatten.2 ⟨rows, hrows, mem_classesBelow_of_nested hbelow htop hid hpublic⟩
      | function | enum | parameter | «attribute» | result | enumInstance =>
        simp [Entity.children, Entity.ref] at hlisted

end Classes

/-! ## 5. The view -/

section View

variable {a : Api} {classes : List ClassRow}

/-- The functions that offered rows list. -/
theorem mem_function_ids (hclasses : ∀ c, c ∈ classes ↔ a.Offered (.class c)) (id : String) :
    id ∈ a.modules.toList.flatMap ModuleRow.functions
        ++ classes.flatMap (fun c => c.methods ++ c.constructor?.toList)
      ↔ ∃ e, a.Offered e ∧ ⟨.function, id⟩ ∈ e.children := by
  simp only [List.mem_append, List.mem_flatMap]
  constructor
  · rintro (⟨m, hm, hid⟩ | ⟨c, hc, hid⟩)
    · exact ⟨.module m, .module hm, by simp [Entity.children, hid]⟩
    · exact ⟨.class c, (hclasses c).1 hc, by simpa [Entity.children] using hid⟩
  · rintro ⟨e, he, hlisted⟩
    cases e with
    | module m => exact .inl ⟨m, he.holds, by simpa [Entity.children] using hlisted⟩
    | «class» c => exact .inr ⟨c, (hclasses c).2 he, by simpa [Entity.children] using hlisted⟩
    | function | enum | parameter | «attribute» | result | enumInstance =>
      simp [Entity.children] at hlisted

/-- What offered rows list of a kind, if only rows of one other kind list it. -/
theorem mem_flatMap_ids {ρ : Type} {kind : EntityKind} {mk : ρ → Entity} {rows : List ρ}
    (hrows : ∀ r, r ∈ rows ↔ a.Offered (mk r)) {ids : ρ → List String}
    (hids : ∀ e id, ⟨kind, id⟩ ∈ e.children ↔ ∃ r, e = mk r ∧ id ∈ ids r) (id : String) :
    id ∈ rows.flatMap ids ↔ ∃ e, a.Offered e ∧ ⟨kind, id⟩ ∈ e.children := by
  rw [List.mem_flatMap]
  constructor
  · rintro ⟨r, hr, hid⟩
    exact ⟨mk r, (hrows r).1 hr, (hids _ id).2 ⟨r, rfl, hid⟩⟩
  · rintro ⟨e, he, hlisted⟩
    obtain ⟨r, rfl, hid⟩ := (hids e id).1 hlisted
    exact ⟨r, (hrows r).2 he, hid⟩

theorem flatMap_parametersOf (functions : List FunctionRow) :
    functions.flatMap a.parametersOf
      = (functions.flatMap FunctionRow.parameters).filterMap a.parameters.get? :=
  List.filterMap_flatMap.symm

theorem flatMap_resultsOf (functions : List FunctionRow) :
    functions.flatMap a.resultsOf
      = (functions.flatMap FunctionRow.results).filterMap a.results.get? :=
  List.filterMap_flatMap.symm

theorem mem_modules_iff {m : ModuleRow} : m ∈ a.modules.toList ↔ a.Offered (.module m) :=
  ⟨.module, Offered.holds⟩

theorem mem_publicFunctions (hclasses : ∀ c, c ∈ classes ↔ a.Offered (.class c)) (f : FunctionRow) :
    f ∈ (a.modules.toList.flatMap ModuleRow.functions
        ++ classes.flatMap fun c => c.methods ++ c.constructor?.toList).filterMap a.publicFunction?
      ↔ a.Offered (.function f) :=
  mem_filterMap_open .function (by decide) (fun _ => rfl) (mem_function_ids hclasses)

theorem mem_publicEnums (r : EnumRow) :
    r ∈ (a.modules.toList.flatMap ModuleRow.enums).filterMap a.publicEnum?
      ↔ a.Offered (.enum r) := by
  refine mem_filterMap_open .enum (by decide) (fun _ => rfl)
    (mem_flatMap_ids (fun _ => mem_modules_iff) ?_)
  intro e id
  cases e <;> simp [Entity.children]

/-- The view has the offered rows, with their child lists shrunk. -/
theorem holds_viewOf (hclasses : ∀ c, c ∈ classes ↔ a.Offered (.class c)) {e : Entity} :
    (a.viewOf classes).Holds e ↔ ∃ e₀, a.Offered e₀ ∧ e₀.shrink a = e := by
  have hfunctions := mem_publicFunctions hclasses
  cases e with
  | module m =>
    refine (mem_ofList_offered .module (fun _ => mem_modules_iff) (f := a.shrinkModule)
      fun _ => rfl).trans ?_
    constructor
    · rintro ⟨m₀, hm₀, rfl⟩
      exact ⟨.module m₀, hm₀, rfl⟩
    · rintro ⟨e₀, he₀, heq⟩
      cases e₀ <;> cases heq
      exact ⟨_, he₀, rfl⟩
  | «class» c =>
    refine (mem_ofList_offered .class hclasses (f := a.shrinkClass) fun _ => rfl).trans ?_
    constructor
    · rintro ⟨c₀, hc₀, rfl⟩
      exact ⟨.class c₀, hc₀, rfl⟩
    · rintro ⟨e₀, he₀, heq⟩
      cases e₀ <;> cases heq
      exact ⟨_, he₀, rfl⟩
  | function f => exact mem_ofList_of_offered .function (by decide) (by decide) hfunctions
  | enum r => exact mem_ofList_of_offered .enum (by decide) (by decide) mem_publicEnums
  | «attribute» r =>
    refine mem_ofList_of_offered .attribute (by decide) (by decide) fun r => ?_
    refine mem_filterMap_open .attribute (by decide) (fun _ => rfl) (mem_flatMap_ids hclasses ?_)
    intro e id
    cases e <;> simp [Entity.children]
  | parameter r =>
    refine mem_ofList_of_offered .parameter (by decide) (by decide) fun r => ?_
    rw [flatMap_parametersOf]
    refine mem_filterMap_open .parameter (by decide) (fun _ => rfl) (mem_flatMap_ids hfunctions ?_)
    intro e id
    cases e <;> simp [Entity.children]
  | result r =>
    refine mem_ofList_of_offered .result (by decide) (by decide) fun r => ?_
    rw [flatMap_resultsOf]
    refine mem_filterMap_open .result (by decide) (fun _ => rfl) (mem_flatMap_ids hfunctions ?_)
    intro e id
    cases e <;> simp [Entity.children]
  | enumInstance r =>
    refine mem_ofList_of_offered .enumInstance (by decide) (by decide) fun r => ?_
    refine mem_filterMap_open .enumInstance (by decide) (fun _ => rfl)
      (mem_flatMap_ids mem_publicEnums ?_)
    intro e id
    cases e <;> simp [Entity.children]

/-- **The public view of a model.**  Its rows are those that can be reached from a module through
public rows, with their child lists shrunk. -/
theorem holds_publicView {view : Api} (h : a.publicView? = some view) {e : Entity} :
    view.Holds e ↔ ∃ e₀, a.Offered e₀ ∧ e₀.shrink a = e := by
  obtain ⟨classes, hclasses, rfl⟩ := Option.map_eq_some_iff.1 h
  exact holds_viewOf fun c => mem_keptClasses hclasses

/-- What is listed in the view is listed in the model and offered. -/
theorem Closed.mem_shrink_children (h : a.Closed) {e : Entity} (he : a.Offered e) {r : Ref} :
    r ∈ (e.shrink a).children ↔ r ∈ e.children ∧ ∃ e', a.Offered e' ∧ e'.ref = r := by
  rw [h.shrink_children he.holds, List.mem_filter]
  refine and_congr_right fun hr => ?_
  rw [isOpenAt_iff]
  constructor
  · rintro ⟨e', he', rfl, hopen⟩
    exact ⟨e', .child he he' hr hopen, rfl⟩
  · rintro ⟨e', he', rfl⟩
    have hopen := ((offered_iff_listed (Entity.kind_of_mem_children hr)).1 he').2
    exact ⟨e', open?_eq_some.1 hopen⟩

theorem Closed.publicView (h : a.Closed) {view : Api} (hview : a.publicView? = some view) :
    view.Closed := by
  intro e he r hr
  obtain ⟨e₀, he₀, rfl⟩ := (holds_publicView hview).1 he
  obtain ⟨-, e', he', href⟩ := (h.mem_shrink_children he₀).1 hr
  exact mem_ids_iff.2 ⟨e'.shrink a, (holds_publicView hview).2 ⟨e', he', rfl⟩, by simpa using href⟩

/-- Every row of the view can be reached in the view. -/
theorem Closed.noOrphans_publicView (h : a.Closed) {view : Api}
    (hview : a.publicView? = some view) : view.NoOrphans := by
  intro e he
  obtain ⟨e₀, he₀, rfl⟩ := (holds_publicView hview).1 he
  induction he₀ with
  | module hm => exact .module he
  | @child e₀ e₁ he₀ he₁ hlisted hopen ih =>
    have hparent := (holds_publicView hview).2 ⟨e₀, he₀, rfl⟩
    refine .child (ih hparent) he ?_
    rw [Entity.shrink_ref]
    exact (h.mem_shrink_children he₀).2 ⟨hlisted, e₁, .child he₀ he₁ hlisted hopen, rfl⟩

end View

/-! ## 6. There is a view -/

section Descent

open Relation (TransGen)

variable {a : Api}

theorem exists_mapM {α β : Type} {g : α → Option β} {l : List α}
    (h : ∀ x ∈ l, ∃ y, g x = some y) : ∃ l', l.mapM g = some l' := by
  induction l with
  | nil => exact ⟨[], rfl⟩
  | cons x l ih =>
    obtain ⟨y, hy⟩ := h x List.mem_cons_self
    obtain ⟨ys, hys⟩ := ih fun z hz => h z (List.mem_cons_of_mem x hz)
    exact ⟨y :: ys, by rw [List.mapM_cons, hy, hys]; rfl⟩

theorem exists_of_mapM_eq_none {α β : Type} {g : α → Option β} {l : List α}
    (h : l.mapM g = none) : ∃ x ∈ l, g x = none := by
  by_contra hall
  obtain ⟨l', hl'⟩ := exists_mapM (g := g) (l := l) fun x hx =>
    Option.ne_none_iff_exists'.1 fun hnone => hall ⟨x, hx, hnone⟩
  rw [h] at hl'
  cases hl'

/-- That a class lists another, both of them in the model. -/
def Nests (a : Api) (c d : ClassRow) : Prop :=
  a.Holds (.class c) ∧ a.Holds (.class d) ∧ d.id ∈ c.classes

/-- Whether no class is nested in itself, at any depth. -/
def Acyclic (a : Api) : Prop := ∀ c, ¬ TransGen a.Nests c c

/-- That a class lists a public one. -/
def NestsOpen (a : Api) (c d : ClassRow) : Prop := a.Nests c d ∧ d.isPublic = true

/-- A descent that goes too deep has passed offered classes all the way, each nested in the one
before. -/
theorem exists_chain_of_classesBelow {depth : Nat} {id : String}
    (h : a.classesBelow depth id = none) (hid : ∃ e, a.Offered e ∧ ⟨.class, id⟩ ∈ e.children) :
    ∃ chain : List ClassRow, chain.length = depth ∧ chain.IsChain a.NestsOpen
      ∧ (∀ c ∈ chain, a.Offered (.class c)) ∧ ∀ c ∈ chain.head?, c.id = id := by
  induction depth generalizing id with
  | zero => exact ⟨[], rfl, .nil, by simp, by simp⟩
  | succ depth ih =>
    rw [classesBelow] at h
    cases hpublic : a.publicClass? id with
    | none =>
      rw [hpublic] at h
      cases h
    | some c =>
      rw [hpublic] at h
      obtain ⟨⟨hc, rfl⟩, hopen⟩ := publicClass?_eq_some.1 hpublic
      obtain ⟨e, he, hlisted⟩ := hid
      have hoffered : a.Offered (.class c) := .child he hc hlisted hopen
      obtain ⟨id', hid', hdeep⟩ := exists_of_mapM_eq_none (Option.map_eq_none_iff.1 h)
      obtain ⟨chain, hlength, hchain, hall, hhead⟩ :=
        ih hdeep ⟨.class c, hoffered, by simp [Entity.children, hid']⟩
      refine ⟨c :: chain, by rw [List.length_cons, hlength], List.isChain_cons.2 ⟨?_, hchain⟩,
        List.forall_mem_cons.2 ⟨hoffered, hall⟩, by simp⟩
      intro d hd
      have hd' := hall d (List.mem_of_mem_head? hd)
      exact ⟨⟨hc, hd'.holds, hhead d hd ▸ hid'⟩, hd'.isOpen⟩

/-- A chain of more elements than there are comes back to one of them. -/
theorem exists_transGen_self {α : Type} {r : α → α → Prop} {chain all : List α}
    (hchain : chain.IsChain r) (hsub : chain ⊆ all) (hlong : all.length < chain.length) :
    ∃ x ∈ chain, TransGen r x x := by
  by_contra hnone
  have hpairwise : chain.Pairwise (TransGen r) := (hchain.imp fun _ _ => .single).pairwise
  have hnodup : chain.Nodup := by
    refine hpairwise.imp_of_mem fun {x y} hx _ hxy heq => hnone ⟨x, hx, ?_⟩
    rw [← heq] at hxy
    exact hxy
  exact Nat.not_lt.2 (List.Nodup.subperm hnodup hsub).length_le hlong

/-- Where there is no view, an offered class is nested in itself. -/
theorem exists_circle_of_publicView (h : a.publicView? = none) :
    ∃ c, a.Offered (.class c) ∧ TransGen a.NestsOpen c c := by
  obtain ⟨id, hid, hdeep⟩ :=
    exists_of_mapM_eq_none (Option.map_eq_none_iff.1 (Option.map_eq_none_iff.1 h))
  obtain ⟨m, hm, hlisted⟩ := List.mem_flatMap.1 hid
  obtain ⟨chain, hlength, hchain, hall, -⟩ :=
    exists_chain_of_classesBelow hdeep ⟨.module m, .module hm, by simp [Entity.children, hlisted]⟩
  obtain ⟨c, hc, hcircle⟩ := exists_transGen_self hchain (fun c hc => (hall c hc).holds)
    (hlength ▸ Nat.lt_succ_self a.classes.size)
  exact ⟨c, hall c hc, hcircle⟩

/-- A model without circles of classes has a public view. -/
theorem Acyclic.exists_publicView (h : a.Acyclic) : ∃ view, a.publicView? = some view := by
  refine Option.ne_none_iff_exists'.1 fun hnone => ?_
  obtain ⟨c, -, hcircle⟩ := exists_circle_of_publicView hnone
  exact h c (TransGen.mono (fun _ _ hcd => hcd.1) c c hcircle)

/-- Where going down makes ids longer there is no circle. -/
theorem acyclic_of_longer
    (h : ∀ c d, a.Nests c d → c.id.toList.length < d.id.toList.length) : a.Acyclic := by
  have hlonger : ∀ c d, TransGen a.Nests c d → c.id.toList.length < d.id.toList.length := by
    intro c d hcd
    induction hcd with
    | single hcd => exact h _ _ hcd
    | tail _ hde ih => exact Nat.lt_trans ih (h _ _ hde)
  exact fun c hc => Nat.lt_irrefl _ (hlonger c c hc)

theorem Nested.length_lt (h : a.Nested) {c : ClassRow} (hc : a.Holds (.class c)) {id : String}
    (hid : id ∈ c.classes) : c.id.toList.length < id.toList.length := by
  obtain ⟨n, rfl⟩ : ∃ n, id = Id.child c.id n :=
    h (.class c) hc ⟨.class, id⟩ (by simp [Entity.children, hid])
  exact Id.length_lt_child c.id n

theorem Nested.acyclic (h : a.Nested) : a.Acyclic :=
  acyclic_of_longer fun _ _ hcd => h.length_lt hcd.1 hcd.2.2

/-- A nested model has a public view. -/
theorem Nested.exists_publicView (h : a.Nested) : ∃ view, a.publicView? = some view :=
  h.acyclic.exists_publicView

end Descent

end Api

end ApiSurface
