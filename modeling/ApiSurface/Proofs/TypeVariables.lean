import ApiSurface.Proofs.RowTypes
/-!
# Type variables

A type and the type variables in it are found by two functions, which walk over an annotation
independently of each other.  They belong together: `translate` makes one walk of the two, which
gives the type and adds to a set each type variable that it comes by (`run_translate`).

Whatever is dropped or replaced on the way, the set misses none of the type variables that the type
still has, in the bounds of others included.  The same goes for the types of arguments and of
returned expressions, so that a function knows all type variables of its parameters and results.
-/

namespace ApiSurface

/-! ## 1. Occurrences -/

namespace ApiType

def isTypeVar : ApiType → Bool
  | .typeVar .. => true
  | _ => false

/-- That a type variable occurs in a type, at any depth and also in the bounds of others. -/
def OccursIn (v t : ApiType) : Prop := v.isTypeVar = true ∧ Within v t

/-- That a type is in a list if it is a type variable. -/
def Collected (vars : List ApiType) (u : ApiType) : Prop := u.isTypeVar = true → u ∈ vars

variable {vars : List ApiType} {t v : ApiType}

theorem lenient_collected : Lenient (Collected vars) := by
  intro u hu hvar
  cases u with
  | typeVar => cases hu
  | unknown | named | namedSequence | enum | boundary | list | set | tuple | union | dict | callable
  | literal | final => cases hvar

theorem onVars_collected {vars' : List ApiType} (h : vars' ⊆ vars) :
    OnVars (Collected vars) vars' :=
  fun _ _ hmem _ => h hmem

theorem Proper.mem_of_occursIn (h : Proper (Collected vars) t) (hv : v.OccursIn t) : v ∈ vars :=
  (h v hv.2).2 hv.1

end ApiType

/-! ## 2. One walk -/

namespace Annotation

mutual
/-- The type that an annotation means; each type variable is added to a set when it is met. -/
def translate (s : TypeScope) : Annotation → StateM TypeSet ApiType
  | .any reason missing => return s.anyType reason missing
  | .none => return ApiType.none
  | .inst fullname args => return .ofClass fullname (← translateAll s args)
  | .union items => return .joined (← translateAll s items)
  | .tuple items => return .tuple (← translateAll s items)
  | .callable parameters result => do
    let parameters ← translateAll s parameters
    return .callable parameters (← result.translate s)
  | .literal value => return .literalOf [value]
  | .typeVar name fullname bound => do
    let bound ← translateBound s bound
    if isSelfType name fullname then return bound.getD .unknown
    modify fun seen => seen.insert (.typeVar name bound)
    return .typeVar name bound
  | .unbound name args => return s.writtenType name (← translateAll s args)
  | .typeOf item => return .namedSequence "type" "builtins.type" [← item.translate s]
  | .uninhabited => return .named "NoReturn" "typing.NoReturn"
  | .other _ => return .unknown

def translateAll (s : TypeScope) : List Annotation → StateM TypeSet (List ApiType)
  | [] => return []
  | a :: more => do
    let first ← a.translate s
    return first :: (← translateAll s more)

def translateBound (s : TypeScope) : Option Annotation → StateM TypeSet (Option ApiType)
  | Option.none => return Option.none
  | some b => if b.isObject then return Option.none else return some (← b.translate s)
end

theorem run_bind_of {α β : Type} {x : StateM TypeSet α} {f : α → StateM TypeSet β} {a : α}
    {seen after : TypeSet} (h : x.run seen = (a, after)) :
    (x >>= f).run seen = (f a).run after := by
  rw [StateT.run_bind, h]
  rfl

variable (s : TypeScope)

mutual
/-- The walk gives the type of an annotation and adds its type variables. -/
theorem run_translate : (a : Annotation) → (seen : TypeSet) →
    (a.translate s).run seen = (a.type s, (a.typeVars s).foldl .insert seen)
  | .any .., _ | .none, _ | .literal _, _ | .uninhabited, _ | .other _, _ => rfl
  | .inst _ args, seen | .union args, seen | .tuple args, seen | .unbound _ args, seen => by
    rw [translate, run_bind_of (run_translateAll args seen)]
    rfl
  | .callable parameters result, seen => by
    rw [translate, run_bind_of (run_translateAll parameters seen),
      run_bind_of (run_translate result _), typeVars, List.foldl_append]
    rfl
  | .typeVar name fullname bound, seen => by
    rw [translate, run_bind_of (run_translateBound bound seen), type, typeVars, List.foldl_append]
    split <;> rfl
  | .typeOf item, seen => by
    rw [translate, run_bind_of (run_translate item seen)]
    rfl

theorem run_translateAll : (as : List Annotation) → (seen : TypeSet) →
    (translateAll s as).run seen = (types s as, (typeVarsIn s as).foldl .insert seen)
  | [], _ => rfl
  | a :: more, seen => by
    rw [translateAll, run_bind_of (run_translate a seen), run_bind_of (run_translateAll more _),
      typeVarsIn, List.foldl_append]
    rfl

theorem run_translateBound : (bound : Option Annotation) → (seen : TypeSet) →
    (translateBound s bound).run seen
      = (boundType s bound, (boundTypeVars s bound).foldl .insert seen)
  | Option.none, _ => rfl
  | some b, seen => by
    rw [translateBound, boundType, boundTypeVars]
    split
    · rfl
    · rw [run_bind_of (run_translate b seen)]
      rfl
end

end Annotation

/-! ## 3. Functions -/

open ApiType (Proper Collected lenient_collected onVars_collected)

namespace ModuleContext

variable {ctx : ModuleContext} {f : FunctionFrame} {owner : Option ClassHead} {id : String}

theorem collected_of_mem_parameters {q : ParameterRow}
    (hq : q ∈ ctx.parameters f.head id owner) :
    ∀ t ∈ q.type, Proper (Collected (ctx.functionTypeVars f owner)) t := by
  obtain ⟨a, ha, rfl⟩ := List.mem_map.1 hq
  refine Argument.proper_type? lenient_collected (onVars_collected fun v hv => ?_)
  exact List.mem_append_left _ (List.mem_flatMap.2 ⟨a, ha, hv⟩)

theorem collected_of_mem_results {q : ResultRow} (hq : q ∈ ctx.results f.head f.body id owner) :
    Proper (Collected (ctx.functionTypeVars f owner)) q.type := by
  refine proper_resultSlots lenient_collected (onVars_collected ?_) q.type (mem_nameResults hq).1
  exact List.subset_append_right _ _

end ModuleContext

/-- A function knows the type variables in the types of its parameters and results. -/
theorem Member.mem_typeVarTypes_of_occursIn {ctx : ModuleContext} {m : Member} {r : FunctionRow}
    (hrow : m.row? ctx = some (.function r)) {part : Entity} (hpart : part ∈ m.partRows ctx)
    {t v : ApiType} (ht : t ∈ part.codeTypes) (hv : v.OccursIn t) : v ∈ r.typeVarTypes.toList := by
  cases m with
  | function scope head body =>
    cases hrow
    have hinjective : Function.Injective ApiType.key := fun _ _ heq => ApiType.key_injective heq
    refine (Ascending.mem_ofList_iff hinjective).2 ?_
    rcases List.mem_append.1 hpart with hpart | hpart
    · obtain ⟨q, hq, rfl⟩ := List.mem_map.1 hpart
      have hproper := ModuleContext.collected_of_mem_parameters
        (f := ctx.functionFrame scope head body) hq
      exact (hproper t (Option.mem_toList.1 ht)).mem_of_occursIn hv
    · obtain ⟨q, hq, rfl⟩ := List.mem_map.1 hpart
      obtain rfl := List.mem_singleton.1 ht
      have hproper := ModuleContext.collected_of_mem_results
        (f := ctx.functionFrame scope head body) hq
      exact hproper.mem_of_occursIn hv
  | «class» | enum | assignment => cases hrow

/-- **No type variable is missed.**  Whatever the annotation, what was written in its place and the
scope, the walk over it gives its type and adds its type variables to a set; the set keeps all that
was there and has every type variable that occurs in the type, those in bounds included.  And for
every file, package index and source of docstrings, each kept function has its row in the model, and
there are no other rows of functions; every type variable in the type of one of its parameters or
results is among those that its row lists. -/
theorem type_variables_collected :
    (∀ (s : TypeScope) (a : Annotation) (written : Option Annotation) (seen : TypeSet),
      ∃ collected, ((a.withWritten written).translate s).run seen
          = ((a.withWritten written).type s, collected)
        ∧ collected = ((a.withWritten written).typeVars s).foldl .insert seen
        ∧ (∀ v ∈ seen.toList, v ∈ collected.toList)
        ∧ ∀ v, v.OccursIn ((a.withWritten written).type s) → v ∈ collected.toList)
    ∧ ∀ (f : SourceFile) (index : PackageIndex) (style : DocstringProvider),
      ∃ api, f.assemble index style = .ok api
        ∧ (∀ m ∈ Member.withBelowIn (f.members (f.context index style)), ∀ r,
          m.row? (f.context index style) = some (.function r) →
            api.Holds (.function r)
            ∧ ∀ part ∈ m.partRows (f.context index style), ∀ t ∈ part.codeTypes,
              ∀ v, v.OccursIn t → v ∈ r.typeVarTypes.toList)
        ∧ ∀ r, api.Holds (.function r) →
          ∃ m ∈ Member.withBelowIn (f.members (f.context index style)),
            m.row? (f.context index style) = some (.function r) := by
  have hinjective : Function.Injective ApiType.key := fun _ _ heq => ApiType.key_injective heq
  refine ⟨fun s a written seen => ?_, fun f index style => ?_⟩
  · refine ⟨_, Annotation.run_translate s _ seen, rfl, fun v hv => ?_, fun v hv => ?_⟩
    · exact (Ascending.mem_foldl_insert_iff hinjective).2 (.inl hv)
    · have hproper := Annotation.proper_type s lenient_collected (a.withWritten written)
        (onVars_collected (List.Subset.refl _))
      exact (Ascending.mem_foldl_insert_iff hinjective).2 (.inr (hproper.mem_of_occursIn hv))
  · refine ⟨_, f.assemble_eq index style, fun m hm r hrow => ?_, fun r hr => ?_⟩
    · refine ⟨SourceFile.holds_row hm hrow, fun part hpart t ht v hv => ?_⟩
      exact Member.mem_typeVarTypes_of_occursIn hrow hpart ht hv
    · rcases SourceFile.mem_entities_iff.1 hr.of_foldl_add with heq | ⟨m, hm, hpart | hrow⟩
      · cases heq
      · have hkind := Member.isPart_of_partRows hpart
        cases hkind
      · exact ⟨m, hm, hrow⟩

end ApiSurface
