import ApiSurface.Proofs.Outline
import Mathlib.Data.List.Forall2
/-!
# Targets and values taken apart

An assignment may bind a whole pattern of names at once, to the parts of its value.  Targets and
value are trees of tuples and lists, and a place in the targets is told by the number of a target
and an index path into it.  The names are bound from left to right, that is in the lexicographic
order of their places; each to the part of the value at the same path, as long as the value is taken
apart into as many parts as the target at every step on the way.

The recursion that collects the bound names goes through targets and value at once
(`Expression.targets`).  Here it is taken apart: first the places of the leaves, which depend on
the targets only, and then what is bound at one place, which is found along its path.
-/

namespace ApiSurface

/-! ## 1. Places -/

/-- A place in some targets: the number of a target, and an index path into it. -/
structure Place where
  index : Nat
  path : List Nat

namespace Place

/-- The place with one more target in front. -/
def next (p : Place) : Place := ⟨p.index + 1, p.path⟩

/-- The path to a place in the parts of a tuple or list. -/
def toPath (p : Place) : List Nat := p.index :: p.path

/-- That a place is to the left of another: their paths are compared lexicographically. -/
def LeftOf (p q : Place) : Prop := p.toPath < q.toPath

end Place

namespace Expression

/-- The parts of a tuple or list. -/
def items? : Expression → Option (List Expression)
  | .tuple items => some items
  | .list items => some items
  | _ => none

/-- The part at the end of an index path through tuples and lists. -/
def at? : Expression → (path : List Nat) → Option Expression
  | e, [] => some e
  | e, i :: path => (e.items?.bind fun items => items[i]?).bind fun part => part.at? path

/-- That two expressions are tuples or lists of one length at a path. -/
def AlikeAt (target value : Expression) (path : List Nat) : Prop :=
  ∃ items values, (target.at? path).bind items? = some items
    ∧ (value.at? path).bind items? = some values ∧ values.length = items.length

end Expression

namespace Assignment

/-- The part of the targets at a place. -/
def partAt? (a : Assignment) (p : Place) : Option Expression :=
  a.targets[p.index]?.bind fun target => target.at? p.path

/-- That a place of an assignment binds this: a plain name or a member of the receiver, as a whole
exactly if the place is a target itself, and to the part of the value at the same path if the value
has as many parts as the target at every step, else to nothing that can be told. -/
structure BindsAt (a : Assignment) (receiver : Option String) (p : Place) (t : Target) : Prop where
  name : ∃ leaf, a.partAt? p = some leaf ∧ leaf.boundName? receiver = some t.name
  whole : t.whole = true ↔ p.path = []
  value : ∀ part, t.value = some part ↔ ∃ target value,
    a.targets[p.index]? = some target ∧ a.value = some value ∧ value.at? p.path = some part
      ∧ ∀ n < p.path.length, target.AlikeAt value (p.path.take n)

end Assignment

/-! ## 2. Leaves -/

namespace Expression

mutual
/-- The index paths to the leaves of a target, from left to right. -/
def leafPaths : Expression → List (List Nat)
  | .tuple items => (leafPlaces items).map Place.toPath
  | .list items => (leafPlaces items).map Place.toPath
  | _ => [[]]

/-- The places of the leaves of some targets, from left to right. -/
def leafPlaces : List Expression → List Place
  | [] => []
  | e :: more => e.leafPaths.map (Place.mk 0) ++ (leafPlaces more).map Place.next
end

mutual
/-- Induction on the parts of tuples and lists. -/
theorem items_induction {motive : Expression → Prop}
    (step : ∀ e, (∀ items, e.items? = some items → ∀ part ∈ items, motive part) → motive e) :
    (e : Expression) → motive e
  | .tuple items => step _ fun _ h => Option.some.inj h ▸ items_inductionIn step items
  | .list items => step _ fun _ h => Option.some.inj h ▸ items_inductionIn step items
  | .name .. | .member .. | .str _ | .int _ | .float _ | .call .. | .op .. | .comparison _
  | .unary .. | .conditional .. | .other _ => step _ (by rintro _ ⟨⟩)

theorem items_inductionIn {motive : Expression → Prop}
    (step : ∀ e, (∀ items, e.items? = some items → ∀ part ∈ items, motive part) → motive e) :
    (es : List Expression) → ∀ e ∈ es, motive e
  | [] => List.forall_mem_nil _
  | e :: es => List.forall_mem_cons.2 ⟨items_induction step e, items_inductionIn step es⟩
end

section Leaves

variable {e leaf : Expression} {items es : List Expression} {path : List Nat} {i : Nat} {p : Place}

theorem leafPaths_of_items (h : e.items? = some items) :
    e.leafPaths = (leafPlaces items).map Place.toPath := by
  cases e with
  | tuple | list =>
    cases h
    rfl
  | _ => cases h

theorem leafPaths_of_leaf (h : e.items? = none) : e.leafPaths = [[]] := by
  cases e with
  | tuple | list => cases h
  | _ => rfl

theorem at?_cons (h : e.items? = some items) :
    e.at? (i :: path) = items[i]?.bind fun part => part.at? path := by
  rw [at?, h, Option.bind_some]

theorem at?_cons_of_leaf (h : e.items? = none) : e.at? (i :: path) = none := by
  rw [at?, h]
  rfl

/-- A place is one in the first target, or one in the others. -/
theorem mem_leafPlaces_cons :
    p ∈ leafPlaces (e :: es)
      ↔ p.index = 0 ∧ p.path ∈ e.leafPaths ∨ ∃ q ∈ leafPlaces es, q.next = p := by
  rw [leafPlaces, List.mem_append, List.mem_map, List.mem_map]
  refine or_congr_left ⟨?_, fun ⟨hindex, hpath⟩ => ⟨p.path, hpath, ?_⟩⟩
  · rintro ⟨path, hpath, rfl⟩
    exact ⟨rfl, hpath⟩
  · rw [← hindex]

/-- What is known of the paths of each target carries over to places among all of them. -/
theorem mem_leafPlaces_of_forall
    (h : ∀ e ∈ es, ∀ path,
      path ∈ e.leafPaths ↔ ∃ leaf, e.at? path = some leaf ∧ leaf.items? = none) :
    p ∈ leafPlaces es
      ↔ ∃ leaf, (es[p.index]?.bind fun e => e.at? p.path) = some leaf ∧ leaf.items? = none := by
  induction es generalizing p with
  | nil => simp [leafPlaces]
  | cons e es ih =>
    obtain ⟨he, hes⟩ := List.forall_mem_cons.1 h
    obtain ⟨index, path⟩ := p
    rw [mem_leafPlaces_cons]
    cases index with
    | zero =>
      have hnext : ∀ q : Place, q.next ≠ ⟨0, path⟩ := by rintro q ⟨⟩
      simp [hnext, he]
    | succ index =>
      have hnext : (∃ q ∈ leafPlaces es, q.next = ⟨index + 1, path⟩)
          ↔ ⟨index, path⟩ ∈ leafPlaces es := by
        refine ⟨?_, fun hq => ⟨_, hq, rfl⟩⟩
        rintro ⟨⟨_, _⟩, hq, ⟨⟩⟩
        exact hq
      rw [hnext, ih hes, or_iff_right fun h => Nat.succ_ne_zero index h.1]
      rfl

/-- The leaf paths lead to the parts that are not taken apart any further. -/
theorem mem_leafPaths (e : Expression) (path : List Nat) :
    path ∈ e.leafPaths ↔ ∃ leaf, e.at? path = some leaf ∧ leaf.items? = none := by
  induction e using items_induction generalizing path with
  | step e ih =>
    cases hitems : e.items? with
    | none =>
      rw [leafPaths_of_leaf hitems, List.mem_singleton]
      cases path with
      | nil => exact iff_of_true rfl ⟨e, rfl, hitems⟩
      | cons i path => simp [at?_cons_of_leaf hitems]
    | some items =>
      rw [leafPaths_of_items hitems, List.mem_map]
      cases path with
      | nil => simp [at?, Place.toPath, hitems]
      | cons i path =>
        have hplace : (∃ p ∈ leafPlaces items, p.toPath = i :: path)
            ↔ ⟨i, path⟩ ∈ leafPlaces items := by
          refine ⟨?_, fun hp => ⟨_, hp, rfl⟩⟩
          rintro ⟨⟨_, _⟩, hp, ⟨⟩⟩
          exact hp
        rw [hplace, mem_leafPlaces_of_forall fun part hpart => ih items hitems part hpart,
          at?_cons hitems]

theorem pairwise_leafPlaces_of_forall (h : ∀ e ∈ es, e.leafPaths.Pairwise (· < ·)) :
    (leafPlaces es).Pairwise Place.LeftOf := by
  induction es with
  | nil => exact .nil
  | cons e es ih =>
    obtain ⟨he, hes⟩ := List.forall_mem_cons.1 h
    rw [leafPlaces, List.pairwise_append, List.pairwise_map, List.pairwise_map]
    -- Two places in the first target, two in the others, one in each.
    refine ⟨he.imp fun hlt => ?_, (ih hes).imp fun hleft => ?_, fun p hp q hq => ?_⟩
    · exact List.cons_lt_cons_iff.2 (.inr ⟨rfl, hlt⟩)
    · refine List.cons_lt_cons_iff.2 ((List.cons_lt_cons_iff.1 hleft).imp Nat.succ_lt_succ ?_)
      exact fun ⟨hindex, hpath⟩ => ⟨congrArg Nat.succ hindex, hpath⟩
    · obtain ⟨path, -, rfl⟩ := List.mem_map.1 hp
      obtain ⟨q, -, rfl⟩ := List.mem_map.1 hq
      exact List.cons_lt_cons_iff.2 (.inl (Nat.succ_pos q.index))

/-- Leaves are listed from left to right. -/
theorem pairwise_leafPaths (e : Expression) : e.leafPaths.Pairwise (· < ·) := by
  induction e using items_induction with
  | step e ih =>
    cases hitems : e.items? with
    | none =>
      rw [leafPaths_of_leaf hitems]
      exact List.pairwise_singleton _ _
    | some items =>
      rw [leafPaths_of_items hitems, List.pairwise_map]
      exact pairwise_leafPlaces_of_forall (ih items hitems)

end Leaves

/-! ## 3. What is bound at a path -/

/-- The part of the value that goes with the part of a target at a path. -/
def pairedAt? : (target : Expression) → (value : Option Expression) → (path : List Nat) →
    Option Expression
  | _, value, [] => value
  | e, value, i :: path => e.items?.bind fun items => items[i]?.bind fun part =>
    part.pairedAt? (parts items.length value)[i]? path

/-- What is bound at a path into a target. -/
def targetAt? (receiver : Option String) (e : Expression) (value : Option Expression)
    (whole : Bool) (path : List Nat) : Option Target :=
  (e.at? path).bind fun leaf => (leaf.boundName? receiver).map fun name =>
    ⟨name, e.pairedAt? value path, whole && path.isEmpty⟩

section Pairing

variable {receiver : Option String} {e leaf part target v : Expression}
  {items es values : List Expression} {value : Option Expression} {whole : Bool}
  {path : List Nat} {i n : Nat}

theorem targets_of_items (h : e.items? = some items) :
    e.targets receiver value whole = targetsIn receiver items (parts items.length value) := by
  cases e with
  | tuple | list =>
    cases h
    rw [targets]
  | _ => cases h

theorem targets_of_leaf (h : e.items? = none) :
    e.targets receiver value whole
      = ((e.boundName? receiver).map fun name => ⟨name, value, whole⟩).toList := by
  cases e with
  | tuple | list => cases h
  | member base name type =>
    cases receiver with
    | none => rfl
    | some r =>
      simp only [targets, boundName?, Option.elim, memberName?_member]
      split <;> rfl
  | _ => cases receiver <;> rfl

theorem pairedAt?_cons (hitems : e.items? = some items) (hpart : items[i]? = some part) :
    e.pairedAt? value (i :: path) = part.pairedAt? (parts items.length value)[i]? path := by
  rw [pairedAt?, hitems, Option.bind_some, hpart, Option.bind_some]

theorem targetAt?_cons (h : e.items? = some items) :
    e.targetAt? receiver value whole (i :: path)
      = items[i]?.bind fun part =>
        part.targetAt? receiver (parts items.length value)[i]? false path := by
  cases hpart : items[i]? with
  | none => simp [targetAt?, at?_cons h, hpart]
  | some part => simp [targetAt?, at?_cons h, hpart, pairedAt?_cons h hpart]

/-- Going through places is going through the paths of each target in turn. -/
theorem filterMap_leafPlaces_cons {β : Type} (f : Nat → Expression → List Nat → Option β)
    (e : Expression) (es : List Expression) :
    (leafPlaces (e :: es)).filterMap (fun p => (e :: es)[p.index]?.bind fun e => f p.index e p.path)
      = e.leafPaths.filterMap (f 0 e)
        ++ (leafPlaces es).filterMap fun p =>
          es[p.index]?.bind fun e => f (p.index + 1) e p.path := by
  rw [leafPlaces, List.filterMap_append, List.filterMap_map, List.filterMap_map]
  rfl

theorem flatMap_leafPaths {β : Type} (f : Expression → List Nat → Option β)
    (es : List Expression) :
    (es.flatMap fun e => e.leafPaths.filterMap (f e))
      = (leafPlaces es).filterMap fun p => es[p.index]?.bind fun e => f e p.path := by
  induction es with
  | nil => rfl
  | cons e es ih =>
    rw [List.flatMap_cons, ih]
    exact (filterMap_leafPlaces_cons (fun _ e path => f e path) e es).symm

theorem targetsIn_eq_of_forall
    (h : ∀ e ∈ es, ∀ value whole,
      e.targets receiver value whole = e.leafPaths.filterMap (e.targetAt? receiver value whole)) :
    targetsIn receiver es values
      = (leafPlaces es).filterMap fun p => es[p.index]?.bind fun e =>
        e.targetAt? receiver values[p.index]? false p.path := by
  induction es generalizing values with
  | nil => rfl
  | cons e es ih =>
    obtain ⟨he, hes⟩ := List.forall_mem_cons.1 h
    calc targetsIn receiver (e :: es) values
        = e.targets receiver values.head? false ++ targetsIn receiver es values.tail := by
          rw [targetsIn]
      _ = e.leafPaths.filterMap (e.targetAt? receiver values[0]? false)
          ++ (leafPlaces es).filterMap fun p => es[p.index]?.bind fun e =>
            e.targetAt? receiver values[p.index + 1]? false p.path := by
          rw [he, ih hes, List.head?_eq_getElem?]
          simp only [List.getElem?_tail]
      _ = _ := (filterMap_leafPlaces_cons
          (fun i e path => e.targetAt? receiver values[i]? false path) e es).symm

/-- The names that a target binds are found leaf by leaf, each along its path. -/
theorem targets_eq (receiver : Option String) (e : Expression) (value : Option Expression)
    (whole : Bool) :
    e.targets receiver value whole = e.leafPaths.filterMap (e.targetAt? receiver value whole) := by
  induction e using items_induction generalizing value whole with
  | step e ih =>
    cases hitems : e.items? with
    | none =>
      rw [targets_of_leaf hitems, leafPaths_of_leaf hitems]
      cases hname : e.boundName? receiver <;> simp [targetAt?, at?, pairedAt?, hname]
    | some items =>
      rw [targets_of_items hitems, targetsIn_eq_of_forall (ih items hitems),
        leafPaths_of_items hitems, List.filterMap_map]
      exact congrArg (List.filterMap · _) (funext fun p => (targetAt?_cons hitems).symm)

/-! ## 4. Pairing -/

theorem parts_of_items (h : v.items? = some values) :
    parts n (some v) = if values.length = n then values else [] := by
  cases v with
  | tuple | list =>
    cases h
    rfl
  | _ => cases h

theorem parts_of_leaf (h : v.items? = none) : parts n (some v) = [] := by
  cases v with
  | tuple | list => cases h
  | _ => rfl

/-- A value has a part in a place only if it has as many parts as there are places. -/
theorem getElem?_parts :
    (parts n value)[i]? = some part
      ↔ ∃ v values, value = some v ∧ v.items? = some values ∧ values.length = n
        ∧ values[i]? = some part := by
  cases value with
  | none => simp [parts]
  | some v =>
    cases hv : v.items? with
    | none => simp [parts_of_leaf hv, hv]
    | some values =>
      rw [parts_of_items hv]
      by_cases hlength : values.length = n <;> simp [hlength, hv]

theorem alikeAt_cons {vpart : Expression} (hitems : target.items? = some items)
    (hpart : items[i]? = some part) (hvalues : v.items? = some values)
    (hvpart : values[i]? = some vpart) :
    target.AlikeAt v (i :: path) ↔ part.AlikeAt vpart path := by
  rw [AlikeAt, at?_cons hitems, hpart, at?_cons hvalues, hvpart]
  rfl

/-- The recursion on both trees finds what the path leads to in the value alone, provided that the
lengths agree all the way. -/
theorem pairedAt?_eq_some_iff (h : target.at? path = some leaf) :
    target.pairedAt? value path = some part
      ↔ ∃ v, value = some v ∧ v.at? path = some part
        ∧ ∀ n < path.length, target.AlikeAt v (path.take n) := by
  induction path generalizing target value with
  | nil => simp [pairedAt?, at?]
  | cons i path ih =>
    cases hitems : target.items? with
    | none =>
      rw [at?_cons_of_leaf hitems] at h
      cases h
    | some items =>
      rw [at?_cons hitems, Option.bind_eq_some_iff] at h
      obtain ⟨t, ht, hleaf⟩ := h
      rw [pairedAt?_cons hitems ht, ih hleaf]
      -- The first step compares target and value themselves, the others their parts.
      constructor
      · rintro ⟨vpart, hvpart, hat, halike⟩
        obtain ⟨v, values, rfl, hvalues, hlength, hvpart⟩ := getElem?_parts.1 hvpart
        refine ⟨v, rfl, ?_, fun n hn => ?_⟩
        · rw [at?_cons hvalues, hvpart]
          exact hat
        · cases n with
          | zero => exact ⟨items, values, hitems, hvalues, hlength⟩
          | succ n =>
            rw [List.take_succ_cons, alikeAt_cons hitems ht hvalues hvpart]
            exact halike n (Nat.lt_of_succ_lt_succ hn)
      · rintro ⟨v, rfl, hat, halike⟩
        obtain ⟨items', values, hitems', hvalues, hlength⟩ := halike 0 (Nat.succ_pos _)
        obtain rfl : items = items' := Option.some.inj (hitems.symm.trans hitems')
        rw [at?_cons hvalues, Option.bind_eq_some_iff] at hat
        obtain ⟨vpart, hvpart, hat⟩ := hat
        refine ⟨vpart, getElem?_parts.2 ⟨v, values, rfl, hvalues, hlength, hvpart⟩, hat,
          fun n hn => ?_⟩
        have hnext := halike (n + 1) (Nat.succ_lt_succ hn)
        rwa [List.take_succ_cons, alikeAt_cons hitems ht hvalues hvpart] at hnext

end Pairing

end Expression

/-! ## 5. The result -/

section Bound

variable {a : Assignment} {receiver : Option String} {p : Place} {t : Target}

/-- What is bound at a place of an assignment. -/
def Assignment.targetAt? (a : Assignment) (receiver : Option String) (p : Place) : Option Target :=
  a.targets[p.index]?.bind fun target => target.targetAt? receiver a.value true p.path

theorem Assignment.boundTargets_eq (a : Assignment) (receiver : Option String) :
    a.boundTargets receiver
      = (Expression.leafPlaces a.targets).filterMap (a.targetAt? receiver) := by
  rw [boundTargets]
  simp only [Expression.targets_eq]
  exact Expression.flatMap_leafPaths (fun e path => e.targetAt? receiver a.value true path) _

theorem Assignment.bindsAt_of_targetAt? (h : a.targetAt? receiver p = some t) :
    a.BindsAt receiver p t := by
  obtain ⟨target, htarget, h⟩ := Option.bind_eq_some_iff.1 h
  obtain ⟨leaf, hleaf, h⟩ := Option.bind_eq_some_iff.1 h
  obtain ⟨name, hname, rfl⟩ := Option.map_eq_some_iff.1 h
  refine ⟨⟨leaf, ?_, hname⟩, by simp, fun part => ?_⟩
  · rw [partAt?, htarget]
    exact hleaf
  · rw [Expression.pairedAt?_eq_some_iff hleaf]
    constructor
    · rintro ⟨value, hvalue, hpart⟩
      exact ⟨target, value, htarget, hvalue, hpart⟩
    · rintro ⟨target', value, htarget', hvalue, hpart⟩
      obtain rfl := Option.some.inj (htarget.symm.trans htarget')
      exact ⟨value, hvalue, hpart⟩

theorem Assignment.isSome_targetAt? :
    (a.targetAt? receiver p).isSome = true
      ↔ ∃ leaf, a.partAt? p = some leaf ∧ (leaf.boundName? receiver).isSome = true := by
  rw [targetAt?, partAt?]
  cases a.targets[p.index]? with
  | none => simp
  | some target => cases hleaf : target.at? p.path <;> simp [Expression.targetAt?, hleaf]

/-- What binds a name is not taken apart any further. -/
theorem Expression.items?_eq_none {leaf : Expression}
    (h : (leaf.boundName? receiver).isSome = true) : leaf.items? = none := by
  cases leaf with
  | tuple | list => cases receiver <;> cases h
  | _ => rfl

end Bound

theorem forall₂_filterMap {α β : Type} (f : α → Option β) (l : List α) :
    List.Forall₂ (fun a b => f a = some b) (l.filter fun a => (f a).isSome) (l.filterMap f) := by
  induction l with
  | nil => exact .nil
  | cons a l ih => cases h : f a <;> simp [h, ih]

/-- **Names are bound by their place.**  An assignment binds, from left to right over all its
targets, the names at just those places where tuples and lists of targets come to a plain name, or
with a receiver to a member of it.  A name is bound as a whole exactly if its place is a target
itself.  Its value is the part of the assigned value at the same path, if at every step on the path
the value is a tuple or list as long as the target, and otherwise it has none. -/
theorem Assignment.targets_bound_by_place (a : Assignment) (receiver : Option String) :
    ∃ places : List Place, places.Pairwise Place.LeftOf
      ∧ (∀ p, p ∈ places
        ↔ ∃ leaf, a.partAt? p = some leaf ∧ (leaf.boundName? receiver).isSome = true)
      ∧ List.Forall₂ (a.BindsAt receiver) places (a.boundTargets receiver) := by
  have hleaves : ∀ p, p ∈ Expression.leafPlaces a.targets
      ↔ ∃ leaf, a.partAt? p = some leaf ∧ leaf.items? = none := fun p =>
    Expression.mem_leafPlaces_of_forall fun e _ => e.mem_leafPaths
  have hordered : (Expression.leafPlaces a.targets).Pairwise Place.LeftOf :=
    Expression.pairwise_leafPlaces_of_forall fun e _ => e.pairwise_leafPaths
  refine ⟨_, hordered.filter fun p => (a.targetAt? receiver p).isSome, fun p => ?_, ?_⟩
  · rw [List.mem_filter, isSome_targetAt?, hleaves, and_iff_right_iff_imp]
    rintro ⟨leaf, hleaf, hname⟩
    exact ⟨leaf, hleaf, Expression.items?_eq_none hname⟩
  · rw [boundTargets_eq]
    exact (forall₂_filterMap (a.targetAt? receiver) _).imp fun p t h => bindsAt_of_targetAt? h

-- `whole = a, [b, c] = 1, (2,)`: the inner lengths differ, so `b` and `c` go without a value.
example :
    let plain (n : String) : Expression := .name n none none
    let number (n : Int) : Expression := .int (.int n)
    let a : Assignment := {
      targets := [plain "whole", .tuple [plain "a", .list [plain "b", plain "c"]]]
      value := some (.tuple [number 1, .tuple [number 2]])
      type := none
      unanalyzedType := none
      line := 1 }
    (a.boundTargets none).map (fun t => (t.name, t.whole, t.value.isSome))
      = [("whole", true, true), ("a", false, true), ("b", false, false), ("c", false, false)] := by
  decide

end ApiSurface
