import ApiSurface.Proofs.CanonicalTypes
import ApiSurface.Proofs.ModuleScope
import Mathlib.Data.Finset.Image
import Mathlib.Data.Finset.Lattice.Fold
import Mathlib.Order.Lattice.Nat
/-!
# Slots of what a function returns

Without a usable annotation the slots of a function are read off its `return` statements.  What
counts of them is one finite set, that of the types that they are determined to have: `slotsOver`
says for any such set which slots it gives, and mentions neither an order nor a multitude.  So the
slots stay the same however the statements are permuted, repeated or nested.

An annotation takes its slots directly from its type.  A function that returns in one way only has a
set of one type, of which `slotsOver` gives the components (`slotsOver_singleton`), so both ways can
be compared type by type: they part at the empty tuple, and nowhere else.
-/

namespace ApiSurface

namespace ApiType

/-! ## 1. Unions of sets -/

section Union

variable {types types' : List ApiType}

/-- A union depends on its members only. -/
theorem unionOf_congr_members
    (h : ∀ u, u ∈ types.flatMap unionMembers ↔ u ∈ types'.flatMap unionMembers) :
    unionOf types = unionOf types' := by
  have hinjective : Function.Injective key := fun _ _ heq => key_injective heq
  have hmembers : (Ascending.ofList (types.flatMap unionMembers) : TypeSet)
      = Ascending.ofList (types'.flatMap unionMembers) := by
    refine Ascending.ext_mem fun u => ?_
    rw [Ascending.mem_ofList_iff hinjective, Ascending.mem_ofList_iff hinjective, h]
  rw [unionOf, unionOf, hmembers]

/-- A union depends on which types are joined, not on their order or number. -/
theorem unionOf_congr (h : ∀ t, t ∈ types ↔ t ∈ types') : unionOf types = unionOf types' :=
  unionOf_congr_members fun u => by simp only [List.mem_flatMap, h]

/-- A canonical type is the union of itself alone. -/
theorem unionOf_singleton {t : ApiType} (h : t.IsTidy) : unionOf [t] = t := by
  cases t with
  | union types =>
    obtain ⟨hlength, hascending, -⟩ := h
    have hmembers : (Ascending.ofList ([ApiType.union types].flatMap unionMembers) : TypeSet).toList
        = types := by
      rw [List.flatMap_singleton, unionMembers]
      exact congrArg Ascending.toList (Ascending.ofList_toList ⟨types, hascending⟩)
    rw [unionOf, hmembers]
    rcases types with - | ⟨s, - | ⟨s', rest⟩⟩
    · simp at hlength
    · simp at hlength
    · rfl
  | unknown | named | namedSequence | enum | boundary | list | set | tuple | dict | callable
  | literal | final | typeVar => rfl

/-- The union of a finite set of types. -/
def unionOfSet (S : Finset ApiType) : ApiType :=
  Quot.liftOn S.val unionOf fun _ _ h => unionOf_congr fun _ => h.mem_iff

theorem unionOfSet_eq {S : Finset ApiType} (h : ∀ t, t ∈ S ↔ t ∈ types) :
    unionOfSet S = unionOf types := by
  obtain ⟨⟨l⟩, hnodup⟩ := S
  exact unionOf_congr h

end Union

/-! ## 2. Slots of a set of types -/

/-- The number of slots that values of a type take. -/
def width : ApiType → Nat
  | .tuple types => types.length
  | _ => 1

/-- What values of a type put into a slot, if they take it. -/
def component? : ApiType → (slot : Nat) → Option ApiType
  | .tuple types, i => types[i]?
  | t, 0 => some t
  | _, _ + 1 => Option.none

/-- The slots of a function that returns values of the types in a set.  Nothing but none takes no
slot, and without tuples one slot takes all.  Otherwise there are as many as the widest type takes;
each is the union of what the types put into it, those that do not reach it a none. -/
def slotsOver (S : Finset ApiType) : List ApiType :=
  if ∀ t ∈ S, t.isNone = true then []
  else if ∀ t ∈ S, t.isTuple = false then [unionOfSet S]
  else (List.range (S.sup width)).map fun i =>
    unionOfSet (S.image fun t => (t.component? i).getD none)

/-- A scalar stands beside the first component of a pair, and none beside the second. -/
example : slotsOver {builtin "int", .tuple [builtin "str", builtin "bool"]}
    = [.union [builtin "int", builtin "str"], .union [none, builtin "bool"]] := by decide +kernel

section Slots

variable {t : ApiType} {l : List ApiType} {S : Finset ApiType}

theorem length_components (t : ApiType) : t.components.length = t.width := by
  cases t <;> rfl

theorem getElem?_components (t : ApiType) (i : Nat) : t.components[i]? = t.component? i := by
  cases t with
  | tuple types => rfl
  | unknown | named | namedSequence | enum | boundary | list | set | union | dict | callable
  | literal | final | typeVar => cases i <;> rfl

theorem foldl_max_le_iff {widths : List Nat} {least n : Nat} :
    widths.foldl Nat.max least ≤ n ↔ least ≤ n ∧ ∀ w ∈ widths, w ≤ n := by
  induction widths generalizing least with
  | nil => simp
  | cons w widths ih =>
    rw [List.foldl_cons, ih, List.forall_mem_cons, ← and_assoc]
    exact and_congr_left fun _ => Nat.max_le

/-- As many columns as the widest row has places. -/
theorem foldl_max_eq_sup (h : ∀ t, t ∈ S ↔ t ∈ l) :
    ((l.map components).map List.length).foldl Nat.max 0 = S.sup width := by
  refine eq_of_forall_ge_iff fun n => ?_
  rw [foldl_max_le_iff, Finset.sup_le_iff]
  simp [h, length_components]

theorem columns_eq (h : ∀ t, t ∈ S ↔ t ∈ l) :
    columns (l.map components) = (List.range (S.sup width)).map fun i =>
      unionOfSet (S.image fun t => (t.component? i).getD none) := by
  simp only [columns, foldl_max_eq_sup h]
  refine List.map_congr_left fun i _ => (unionOfSet_eq fun u => ?_).symm
  simp [Finset.mem_image, h, getElem?_components]

/-- The slots of a list of types without repetition are those of its set. -/
theorem slotsOf_eq_slotsOver {shapes : TypeSet} (h : ∀ t, t ∈ S ↔ t ∈ shapes.toList) :
    slotsOf shapes = slotsOver S := by
  have hnone : shapes.toList.all isNone = true ↔ ∀ t ∈ S, t.isNone = true := by simp [h]
  have htuple : shapes.toList.any isTuple = true ↔ ¬ ∀ t ∈ S, t.isTuple = false := by simp [h]
  rw [slotsOf, slotsOver, columns_eq h, unionOfSet_eq h]
  by_cases hall : ∀ t ∈ S, t.isNone = true
  · rw [if_pos (hnone.2 hall), if_pos hall]
  · rw [if_neg (mt hnone.1 hall), if_neg hall]
    by_cases hflat : ∀ t ∈ S, t.isTuple = false
    · rw [if_neg fun hany => htuple.1 hany hflat, if_pos hflat]
    · rw [if_pos (htuple.2 hflat), if_neg hflat]

/-- A type alone gives its components. -/
theorem slotsOver_singleton {prose : Bool} (h : Sound prose t) :
    slotsOver {t} = if t.isNone = true then [] else t.components := by
  have hone : ∀ u, Sound prose u → unionOfSet {u} = u := by
    intro u hu
    calc unionOfSet {u} = unionOf [u] := unionOfSet_eq fun _ => by simp
      _ = u := unionOf_singleton (sound_iff.1 hu).1.1
  simp only [slotsOver, Finset.mem_singleton, forall_eq, Finset.sup_singleton,
    Finset.image_singleton]
  split
  · rfl
  · cases t with
    | tuple types =>
      rw [if_neg (by simp [isTuple])]
      refine List.ext_getElem (by simp [width, components]) fun i hi _ => ?_
      have hi : i < types.length := by simpa [width] using hi
      simpa [component?, components, hi] using hone _ (sound_tuple.1 h _ (List.getElem_mem hi))
    | unknown | named | namedSequence | enum | boundary | list | set | union | dict | callable
    | literal | final | typeVar => simp [isTuple, components, hone _ h]

end Slots

end ApiType

/-! ## 3. Returned values -/

namespace Statement

/-- That a `return` statement with this value, or with none, stands in a scope behind branches of
any kind. -/
def Returned (value : Option Expression) (scope : List Statement) : Prop :=
  ∃ path, Behind path (.returned value) scope

section Returned

variable {value : Option Expression}

theorem leavesIn_eq_flatMap (scope : List Statement) : leavesIn scope = scope.flatMap leaves := by
  induction scope with
  | nil => rfl
  | cons s scope ih => rw [leavesIn, ih, List.flatMap_cons]

theorem mem_handlerLeaves {s : Statement} {handlers : List Block} :
    s ∈ handlerLeaves handlers ↔ ∃ b ∈ handlers, ∃ branch inner,
      (branch, inner) ∈ handlerBranches b ∧ s ∈ leavesIn inner := by
  induction handlers with
  | nil => simp [handlerLeaves]
  | cons b handlers ih =>
    obtain ⟨body, orelse⟩ := b
    simp [handlerLeaves, blockLeaves, ih, exists_handlerBranch, or_assoc]

/-- What a statement returns: its value if it is a `return`, and what is behind its branches. -/
theorem returned_mem_leaves_iff (t : Statement) :
    .returned value ∈ t.leaves ↔ t = .returned value
      ∨ ∃ branch inner, (branch, inner) ∈ t.branches ∧ .returned value ∈ leavesIn inner := by
  cases t with
  | block kind b =>
    obtain ⟨body, orelse⟩ := b
    rw [exists_branch_block]
    simp [leaves, blockLeaves]
  | guarded body handlers orelse finalBody =>
    rw [exists_branch_guarded, ← mem_handlerLeaves]
    simp [leaves]
  | classDef | funcDef | assignment | importNames | importFrom | importAll | returned | expression
  | pass | other => simp [leaves, branches, eq_comm]

theorem returned_mem_leavesIn_iff (scope : List Statement) :
    .returned value ∈ leavesIn scope ↔ Returned value scope := by
  have hstep : ∀ scope, .returned value ∈ leavesIn scope ↔ ∃ t ∈ scope, t = .returned value
      ∨ ∃ branch inner, (branch, inner) ∈ t.branches ∧ (fun _ => true) branch = true
        ∧ .returned value ∈ leavesIn inner := by
    intro scope
    simp only [leavesIn_eq_flatMap scope, List.mem_flatMap, returned_mem_leaves_iff, true_and]
  rw [iff_exists_behind hstep]
  constructor
  · rintro ⟨path, _, hbehind, rfl, -⟩
    exact ⟨path, hbehind⟩
  · rintro ⟨path, hbehind⟩
    exact ⟨path, _, hbehind, rfl, fun _ _ => rfl⟩

end Returned

end Statement

open Statement (Returned)

theorem mem_returnsIn_iff {value : Option Expression} {body : List Statement} :
    value ∈ returnsIn body ↔ Returned value body := by
  rw [← Statement.returned_mem_leavesIn_iff, returnsIn, List.mem_filterMap]
  constructor
  · rintro ⟨s, hs, hvalue⟩
    cases s with
    | returned value' =>
      cases hvalue
      exact hs
    | classDef | funcDef | assignment | importNames | importFrom | importAll | block | guarded
    | expression | pass | other => cases hvalue
  · intro hs
    exact ⟨_, hs, rfl⟩

namespace ModuleContext

/-- That a body has a `return` statement of a type that is determined: a bare one of none, any other
of the type of its expression, if that has one. -/
inductive Returns (ctx : ModuleContext) (owner : Option ClassHead) (body : List Statement) :
    ApiType → Prop
  | bare (h : Returned none body) : Returns ctx owner body .none
  | value {e : Expression} {t : ApiType} (h : Returned (some e) body)
      (htype : e.type? ctx.scope owner = some t) : Returns ctx owner body t

section Returns

variable {ctx : ModuleContext} {owner : Option ClassHead} {body body' : List Statement}
  {t : ApiType}

theorem mem_returnedTypes_iff :
    t ∈ (ctx.returnedTypes owner body).toList ↔ ctx.Returns owner body t := by
  have hinjective : Function.Injective ApiType.key := fun _ _ heq => ApiType.key_injective heq
  rw [returnedTypes, Ascending.mem_ofList_iff hinjective, List.mem_filterMap]
  constructor
  · rintro ⟨value, hvalue, htype⟩
    cases value with
    | none =>
      cases htype
      exact .bare (mem_returnsIn_iff.1 hvalue)
    | some e => exact .value (mem_returnsIn_iff.1 hvalue) htype
  · intro h
    cases h with
    | bare h => exact ⟨none, mem_returnsIn_iff.2 h, rfl⟩
    | value h htype => exact ⟨_, mem_returnsIn_iff.2 h, htype⟩

theorem inferredSlots_eq_of_returns {S : Finset ApiType}
    (h : ∀ t, t ∈ S ↔ ctx.Returns owner body t) :
    ctx.inferredSlots owner body = ApiType.slotsOver S :=
  ApiType.slotsOf_eq_slotsOver fun t => (h t).trans mem_returnedTypes_iff.symm

theorem exists_returns (ctx : ModuleContext) (owner : Option ClassHead) (body : List Statement) :
    ∃ S : Finset ApiType, ∀ t, t ∈ S ↔ ctx.Returns owner body t := by
  refine ⟨(ctx.returnedTypes owner body).toList.toFinset, fun t => ?_⟩
  rw [List.mem_toFinset, mem_returnedTypes_iff]

theorem Returns.mono (h : ∀ value, Returned value body → Returned value body')
    (ht : ctx.Returns owner body t) : ctx.Returns owner body' t := by
  cases ht with
  | bare hbare => exact .bare (h _ hbare)
  | value hvalue htype => exact .value (h _ hvalue) htype

end Returns

/-- **Slots of a function without annotation.**  For every module, receiver and body: the types that
its `return` statements are determined to have, behind branches of any kind and at any depth, form a
finite set, and the slots are those of the set.  So a body that returns the same values, in whatever
order, number and nesting, has the same slots. -/
theorem inferredSlots_eq_slotsOver (ctx : ModuleContext) (owner : Option ClassHead)
    (body : List Statement) :
    (∃ S : Finset ApiType, (∀ t, t ∈ S ↔ ctx.Returns owner body t)
      ∧ ctx.inferredSlots owner body = ApiType.slotsOver S)
    ∧ ∀ body', (∀ value, Returned value body' ↔ Returned value body) →
      ctx.inferredSlots owner body' = ctx.inferredSlots owner body := by
  obtain ⟨S, hS⟩ := ctx.exists_returns owner body
  have hslots := inferredSlots_eq_of_returns hS
  refine ⟨⟨S, hS, hslots⟩, fun body' hsame => ?_⟩
  have hS' : ∀ t, t ∈ S ↔ ctx.Returns owner body' t := by
    intro t
    rw [hS t]
    exact ⟨Returns.mono fun value => (hsame value).2, Returns.mono fun value => (hsame value).1⟩
  rw [hslots, inferredSlots_eq_of_returns hS']

end ModuleContext

namespace Sample

def context : ModuleContext := ⟨.build [], "m", DocstringStyle.plaintext⟩

/-- A number and a text. -/
def pair : Expression := .tuple [.int (.int 1), .str "a"]

/-- A body that returns the pair under a condition, and else nothing. -/
def pairOrNone : List Statement :=
  [.block .cond (.mk [.returned (some pair)] []), .returned none]

/-- A body that returns nothing under a condition, and else the pair, in a guarded block or after
it. -/
def noneOrPair : List Statement :=
  [.guarded [.block .cond (.mk [.returned none] [.returned (some pair)])] [] [] [],
    .returned (some pair)]

theorem rearranged_slots_same :
    (∀ value, Returned value noneOrPair ↔ Returned value pairOrNone)
      ∧ context.inferredSlots none noneOrPair = context.inferredSlots none pairOrNone
      ∧ context.inferredSlots none pairOrNone
        = [.union [.none, .builtin "int"], .union [.none, .builtin "str"]] := by
  have hsame : ∀ value, Returned value noneOrPair ↔ Returned value pairOrNone := by
    intro value
    have hlater : returnsIn noneOrPair = [none, some pair, some pair] := rfl
    have hearlier : returnsIn pairOrNone = [some pair, none] := rfl
    rw [← mem_returnsIn_iff, ← mem_returnsIn_iff, hlater, hearlier]
    simp [or_comm]
  exact ⟨hsame, (context.inferredSlots_eq_slotsOver none pairOrNone).2 noneOrPair hsame,
    by decide +kernel⟩

end Sample

/-! ## 4. Annotated and inferred slots -/

namespace ModuleContext

section Annotated

variable {ctx : ModuleContext} {owner : Option ClassHead} {body : List Statement} {e : Expression}
  {t : ApiType} {a : Annotation} {function : FunctionHead}

theorem resultSlots_of_uninformative (h : ∀ d ∈ function.returnType, d.isUninformative = true) :
    ctx.resultSlots function body owner = ctx.inferredSlots owner body := by
  rw [resultSlots]
  cases hreturn : function.returnType with
  | none => rfl
  | some d =>
    have hnone : d.declared? ctx.scope function.unanalyzedReturnType = none :=
      if_pos (h d hreturn)
    simp only [hnone]

/-- The annotation none needs no rule of its own, since it means the type none. -/
theorem annotatedSlots_of_declared {s : TypeScope} {written : Option Annotation}
    (h : a.declared? s written = some t) :
    annotatedSlots a t
      = if t.isNone = true then [] else if t = .tuple [] then [t] else t.components := by
  unfold annotatedSlots
  split
  · cases h
    rfl
  · congr 1
    split
    · rw [if_pos rfl]
    · rename_i hne
      rw [if_neg hne]

theorem resultSlots_of_declared (ha : function.returnType = some a)
    (ht : a.declared? ctx.scope function.unanalyzedReturnType = some t) :
    ctx.resultSlots function body owner
      = if t.isNone = true then [] else if t = .tuple [] then [t] else t.components := by
  simp only [resultSlots, ha, ht]
  exact annotatedSlots_of_declared ht

/-- A function that returns one expression only. -/
theorem inferredSlots_of_only (honly : ∀ value, Returned value body ↔ value = some e)
    (htype : e.type? ctx.scope owner = some t) :
    ctx.inferredSlots owner body = if t.isNone = true then [] else t.components := by
  have hS : ∀ u, u ∈ ({t} : Finset ApiType) ↔ ctx.Returns owner body u := by
    intro u
    rw [Finset.mem_singleton]
    constructor
    · rintro rfl
      exact .value ((honly _).2 rfl) htype
    · intro hu
      cases hu with
      | bare h => cases (honly _).1 h
      | value h htype' =>
        cases (honly _).1 h
        exact Option.some.inj (htype'.symm.trans htype)
  rw [inferredSlots_eq_of_returns hS,
    ApiType.slotsOver_singleton (Expression.sound_type? e t htype)]

end Annotated

/-- **Annotated and inferred slots.**  Take any type of a returned expression, a function that
returns this expression only and says nothing of use about its result, and a function that is
annotated with the type, in any module.  They have the same slots exactly if the type is not the
empty tuple, of which an annotation makes one slot and a `return` statement none. -/
theorem resultSlots_agree_iff {ctx ctx' : ModuleContext} {owner owner' : Option ClassHead}
    {plain annotated : FunctionHead} {body body' : List Statement} {e : Expression} {t : ApiType}
    {a : Annotation} (hplain : ∀ d ∈ plain.returnType, d.isUninformative = true)
    (honly : ∀ value, Returned value body ↔ value = some e)
    (htype : e.type? ctx.scope owner = some t) (ha : annotated.returnType = some a)
    (ht : a.declared? ctx'.scope annotated.unanalyzedReturnType = some t) :
    (ctx.resultSlots plain body owner = ctx'.resultSlots annotated body' owner' ↔ t ≠ .tuple [])
      ∧ (t = .tuple [] → ctx.resultSlots plain body owner = []
        ∧ ctx'.resultSlots annotated body' owner' = [.tuple []]) := by
  rw [resultSlots_of_uninformative hplain, inferredSlots_of_only honly htype,
    resultSlots_of_declared ha ht]
  by_cases hempty : t = .tuple []
  · subst hempty
    exact ⟨by decide, fun _ => by decide⟩
  · rw [if_neg hempty]
    exact ⟨⟨fun _ => hempty, fun _ => rfl⟩, fun h => absurd h hempty⟩

end ModuleContext

namespace Sample

/-- A function with this annotation of its result, if any. -/
def returning (a : Option Annotation) : FunctionHead :=
  ⟨"f", "m.f", [], a, none, false, false, false, [], none, 1⟩

def pairType : Annotation := .tuple [.inst "builtins.int" [], .inst "builtins.str" []]

/-- A body that returns the pair under a condition and again in a guarded block. -/
def pairBody : List Statement :=
  [.block .cond (.mk [.returned (some pair)] []), .guarded [] [] [] [.returned (some pair)]]

theorem pair_slots_agree :
    (∀ value, Returned value pairBody ↔ value = some pair)
      ∧ context.resultSlots (returning none) pairBody none
        = context.resultSlots (returning (some pairType)) [] none
      ∧ context.resultSlots (returning (some pairType)) [] none
        = [.builtin "int", .builtin "str"] := by
  have honly : ∀ value, Returned value pairBody ↔ value = some pair := by
    intro value
    have hreturns : returnsIn pairBody = [some pair, some pair] := rfl
    rw [← mem_returnsIn_iff, hreturns]
    simp
  have hagree : context.resultSlots (returning none) pairBody none
      = context.resultSlots (returning (some pairType)) [] none :=
    (ModuleContext.resultSlots_agree_iff (t := .tuple [.builtin "int", .builtin "str"])
      (by simp [returning]) honly rfl rfl rfl).1.2 (by decide)
  exact ⟨honly, hagree, by decide⟩

/-- The empty tuple takes no slot where it is returned, and one where it is annotated. -/
theorem empty_tuple_slots_differ :
    (Expression.tuple []).type? context.scope none = some (.tuple [])
      ∧ Annotation.declared? context.scope (.tuple []) none = some (.tuple [])
      ∧ context.resultSlots (returning none) [.returned (some (.tuple []))] none = []
      ∧ context.resultSlots (returning (some (.tuple []))) [] none = [.tuple []] :=
  ⟨rfl, rfl, by decide, by decide⟩

end Sample

end ApiSurface
