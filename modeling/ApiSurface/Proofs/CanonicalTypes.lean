import ApiSurface.Proofs.EntityIds
import Mathlib.Tactic.SplitIfs
/-!
# Canonical types

The types of a model come from annotations, from values, from what functions return and from prose.
None of these sources builds a union, a set or a literal type by hand: all use `unionOf`, `setOf`
and `literalOf`, which leave whatever is inside as it is.  So it takes one lemma for each way of
building a type to see that every type is canonical, at any depth.

Enums and ranges come from prose only.  Both facts are carried by one property, `Sound`, with a flag
that says whether prose is allowed, so that each way of building types is looked at once.  It is a
case of `Proper`, by which a type is canonical and all that is in it has some property.  What is
built from proper types is proper, as long as the property asks nothing but of prose and of type
variables (`Lenient`); and of these it has to hold only of the ones collected on the way.
-/

namespace ApiSurface

namespace ApiType

/-! ## 1. Types inside types -/

/-- The types of which a type is directly made. -/
def parts : ApiType → List ApiType
  | .namedSequence _ _ types | .list types | .set types | .tuple types | .union types => types
  | .dict k v => [k, v]
  | .callable parameters result => parameters ++ [result]
  | .final inner => [inner]
  | .typeVar _ bound => bound.toList
  | .unknown | .named .. | .enum _ | .boundary _ | .literal _ => []

/-- That a type occurs in another, as the whole of it or at any depth. -/
inductive Within : ApiType → ApiType → Prop
  | whole (t : ApiType) : Within t t
  | part {u p t : ApiType} (hp : p ∈ t.parts) (h : Within u p) : Within u t

def isUnion : ApiType → Bool
  | .union _ => true
  | _ => false

/-- Whether types of this form are found in prose only. -/
def isProse : ApiType → Bool
  | .enum _ | .boundary _ => true
  | _ => false

/-- That the outermost form of a type is canonical. -/
def IsTidy : ApiType → Prop
  | .union types => 2 ≤ types.length
    ∧ types.Pairwise (fun s t => Key.before s.key t.key = true) ∧ ∀ t ∈ types, t.isUnion = false
  | .set types => types.Pairwise fun s t => Key.before s.key t.key = true
  | .literal values => values.Pairwise fun x y => Key.before x.key y.key = true
  | _ => True

instance : DecidablePred IsTidy
  | .union _ => inferInstanceAs (Decidable (_ ∧ _ ∧ _))
  | .set types => inferInstanceAs (Decidable (types.Pairwise _))
  | .literal values => inferInstanceAs (Decidable (values.Pairwise _))
  | .unknown | .named .. | .namedSequence .. | .enum _ | .boundary _ | .list _ | .tuple _ | .dict ..
  | .callable .. | .final _ | .typeVar .. => isTrue trivial

def Canonical (t : ApiType) : Prop := ∀ u, Within u t → u.IsTidy

def WithoutProse (t : ApiType) : Prop := ∀ u, Within u t → u.isProse = false

/-- That a type is canonical and all that is in it has a property. -/
def Proper (p : ApiType → Prop) (t : ApiType) : Prop := ∀ u, Within u t → u.IsTidy ∧ p u

/-- That a type is canonical, and from prose at most if that is allowed. -/
def Sound (prose : Bool) (t : ApiType) : Prop :=
  ∀ u, Within u t → u.IsTidy ∧ (u.isProse = true → prose = true)

theorem proper_iff {p : ApiType → Prop} {t : ApiType} :
    Proper p t ↔ (t.IsTidy ∧ p t) ∧ ∀ q ∈ t.parts, Proper p q := by
  constructor
  · intro h
    exact ⟨h t (.whole t), fun q hq u hu => h u (.part hq hu)⟩
  · rintro ⟨hwhole, hparts⟩ u hu
    cases hu with
    | whole => exact hwhole
    | part hq hu => exact hparts _ hq u hu

section Sound

variable {prose : Bool} {t : ApiType}

theorem sound_iff :
    Sound prose t
      ↔ (t.IsTidy ∧ (t.isProse = true → prose = true)) ∧ ∀ p ∈ t.parts, Sound prose p :=
  proper_iff

theorem Sound.canonical (h : Sound prose t) : t.Canonical := fun u hu => (h u hu).1

theorem Sound.withoutProse (h : Sound false t) : t.WithoutProse := by
  intro u hu
  cases hprose : u.isProse with
  | false => rfl
  | true => cases (h u hu).2 hprose

end Sound

/-! ## 2. Building types -/

/-- Whether a type is neither from prose nor a type variable. -/
def isOrdinary : ApiType → Bool
  | .enum _ | .boundary _ | .typeVar .. => false
  | _ => true

/-- That a property asks nothing of ordinary types. -/
def Lenient (p : ApiType → Prop) : Prop := ∀ u, u.isOrdinary = true → p u

/-- That a property holds of the type variables in a list. -/
def OnVars (p : ApiType → Prop) (vars : List ApiType) : Prop :=
  ∀ name bound, .typeVar name bound ∈ vars → p (.typeVar name bound)

theorem OnVars.mono {p : ApiType → Prop} {vars vars' : List ApiType} (h : OnVars p vars)
    (hsub : vars' ⊆ vars) : OnVars p vars' :=
  fun name bound hmem => h name bound (hsub hmem)

theorem OnVars.left {p : ApiType → Prop} {vars vars' : List ApiType}
    (h : OnVars p (vars ++ vars')) : OnVars p vars :=
  h.mono (List.subset_append_left _ _)

theorem OnVars.right {p : ApiType → Prop} {vars vars' : List ApiType}
    (h : OnVars p (vars ++ vars')) : OnVars p vars' :=
  h.mono (List.subset_append_right _ _)

section Proper

variable {p : ApiType → Prop} {t : ApiType} {types : List ApiType}

/-- Whether types of this form are neither sorted nor from prose. -/
def isPlain : ApiType → Bool
  | .union _ | .set _ | .literal _ | .enum _ | .boundary _ => false
  | _ => true

theorem isTidy_of_isPlain (h : t.isPlain = true) : t.IsTidy := by
  cases t with
  | unknown | named | namedSequence | list | tuple | dict | callable | final | typeVar => trivial
  | union | set | literal | enum | boundary => cases h

/-- A plain type is as proper as its parts. -/
theorem proper_iff_parts (h : t.isPlain = true) (ht : p t) :
    Proper p t ↔ ∀ q ∈ t.parts, Proper p q := by
  rw [proper_iff]
  exact and_iff_right ⟨isTidy_of_isPlain h, ht⟩

theorem proper_unknown (hp : Lenient p) : Proper p .unknown :=
  (proper_iff_parts rfl (hp _ rfl)).2 (by simp [parts])

theorem proper_named (hp : Lenient p) (name qname : String) : Proper p (.named name qname) :=
  (proper_iff_parts rfl (hp _ rfl)).2 (by simp [parts])

theorem proper_namedSequence (hp : Lenient p) {name qname : String} :
    Proper p (.namedSequence name qname types) ↔ ∀ t ∈ types, Proper p t :=
  proper_iff_parts rfl (hp _ rfl)

theorem proper_list (hp : Lenient p) : Proper p (.list types) ↔ ∀ t ∈ types, Proper p t :=
  proper_iff_parts rfl (hp _ rfl)

theorem proper_tuple (hp : Lenient p) : Proper p (.tuple types) ↔ ∀ t ∈ types, Proper p t :=
  proper_iff_parts rfl (hp _ rfl)

theorem proper_dict (hp : Lenient p) {k v : ApiType} :
    Proper p (.dict k v) ↔ Proper p k ∧ Proper p v := by
  rw [proper_iff_parts rfl (hp _ rfl)]
  simp [parts]

theorem proper_callable (hp : Lenient p) {result : ApiType} :
    Proper p (.callable types result) ↔ (∀ t ∈ types, Proper p t) ∧ Proper p result := by
  rw [proper_iff_parts rfl (hp _ rfl)]
  simp [parts, or_imp, forall_and]

theorem proper_final (hp : Lenient p) : Proper p (.final t) ↔ Proper p t := by
  rw [proper_iff_parts rfl (hp _ rfl)]
  simp [parts]

theorem proper_typeVar {name : String} {bound : Option ApiType} (h : p (.typeVar name bound)) :
    Proper p (.typeVar name bound) ↔ ∀ t ∈ bound, Proper p t := by
  rw [proper_iff_parts rfl h]
  simp [parts]

theorem proper_literalOf (hp : Lenient p) (values : List Literal) :
    Proper p (literalOf values) := by
  rw [proper_iff]
  exact ⟨⟨Ascending.ascending _, hp _ rfl⟩, by simp [literalOf, parts]⟩

theorem proper_setOf (hp : Lenient p) (h : ∀ t ∈ types, Proper p t) :
    Proper p (setOf types) := by
  rw [proper_iff]
  refine ⟨⟨Ascending.ascending _, hp _ rfl⟩, fun q hq => ?_⟩
  exact h q (Ascending.mem_of_mem_ofList hq)

/-- What a proper type brings into a union is proper and no union itself. -/
theorem proper_of_unionMembers {u : ApiType} (h : Proper p t) (hu : u ∈ t.unionMembers) :
    Proper p u ∧ u.isUnion = false := by
  cases t with
  | union types =>
    obtain ⟨⟨⟨-, -, hflat⟩, -⟩, hparts⟩ := proper_iff.1 h
    exact ⟨hparts u hu, hflat u hu⟩
  | unknown | named | namedSequence | enum | boundary | list | set | tuple | dict | callable
  | literal | final | typeVar =>
    obtain rfl := List.mem_singleton.1 hu
    exact ⟨h, rfl⟩

theorem proper_unionOf (hp : Lenient p) (h : ∀ t ∈ types, Proper p t) :
    Proper p (unionOf types) := by
  have hmembers : ∀ u ∈ (Ascending.ofList (types.flatMap unionMembers) : TypeSet).toList,
      Proper p u ∧ u.isUnion = false := by
    intro u hu
    obtain ⟨t, ht, hut⟩ := List.mem_flatMap.1 (Ascending.mem_of_mem_ofList hu)
    exact proper_of_unionMembers (h t ht) hut
  have hascending := (Ascending.ofList (types.flatMap unionMembers) : TypeSet).ascending
  rw [unionOf]
  cases hall : (Ascending.ofList (types.flatMap unionMembers) : TypeSet).toList with
  | nil => exact proper_unknown hp
  | cons s rest =>
    rw [hall] at hmembers hascending
    cases rest with
    | nil => exact (hmembers s List.mem_cons_self).1
    | cons s' rest =>
      refine proper_iff.2 ⟨⟨⟨?_, hascending, fun u hu => (hmembers u hu).2⟩, ?_⟩, ?_⟩
      · simp
      · exact hp _ rfl
      · exact fun u hu => (hmembers u hu).1

/-- Members of members are put in order with the others; in order alone they are not canonical. -/
example : unionOf [.any, .union [.unknown, none]] = .union [.unknown, .any, none]
    ∧ (ApiType.union [.unknown, .any, none]).IsTidy
    ∧ ¬ (ApiType.union [.any, .union [.unknown, none]]).IsTidy := by decide

theorem proper_getD (hp : Lenient p) {o : Option ApiType} (h : ∀ t ∈ o, Proper p t) :
    Proper p (o.getD .unknown) := by
  cases o with
  | none => exact proper_unknown hp
  | some t => exact h t rfl

theorem proper_dictOf (hp : Lenient p) (h : ∀ t ∈ types, Proper p t) :
    Proper p (dictOf types) := by
  rw [dictOf, proper_dict hp]
  constructor
  · exact proper_getD hp fun t ht => h t (List.mem_of_mem_head? ht)
  · exact proper_getD hp fun t ht => h t (List.mem_of_mem_tail (List.mem_of_mem_head? ht))

theorem proper_applied (hp : Lenient p) (qname : String) (h : ∀ t ∈ types, Proper p t) :
    Proper p (applied qname types) := by
  unfold applied
  split
  · exact proper_named hp _ _
  · exact (proper_namedSequence hp).2 h

theorem proper_ofClass (hp : Lenient p) (fullname : String) (h : ∀ t ∈ types, Proper p t) :
    Proper p (ofClass fullname types) := by
  unfold ofClass
  split_ifs
  · exact (proper_list hp).2 h
  · exact proper_setOf hp h
  · exact (proper_tuple hp).2 h
  · exact proper_dictOf hp h
  · exact (proper_final hp).2 (proper_unionOf hp h)
  · exact proper_applied hp _ h

theorem proper_joined (hp : Lenient p) (h : ∀ t ∈ types, Proper p t) :
    Proper p (joined types) := by
  unfold joined
  split
  · exact proper_literalOf hp _
  · exact proper_unionOf hp h

theorem proper_components (hp : Lenient p) (h : Proper p t) :
    ∀ u ∈ t.components, Proper p u := by
  cases t with
  | tuple types => exact (proper_tuple hp).1 h
  | unknown | named | namedSequence | enum | boundary | list | set | union | dict | callable
  | literal | final | typeVar =>
    intro u hu
    obtain rfl := List.mem_singleton.1 hu
    exact h

end Proper

section Sound

variable {prose : Bool} {t u : ApiType} {types : List ApiType}

theorem lenient_sound : Lenient fun u => u.isProse = true → prose = true := by
  intro u hu hprose
  cases u with
  | enum | boundary => cases hu
  | unknown | named | namedSequence | list | set | tuple | union | dict | callable | literal | final
  | typeVar => cases hprose

theorem onVars_sound {vars : List ApiType} :
    OnVars (fun u => u.isProse = true → prose = true) vars := by
  intro name bound _ hprose
  cases hprose

theorem sound_unknown : Sound prose .unknown := proper_unknown lenient_sound

theorem sound_named (name qname : String) : Sound prose (.named name qname) :=
  proper_named lenient_sound name qname

theorem sound_namedSequence {name qname : String} :
    Sound prose (.namedSequence name qname types) ↔ ∀ t ∈ types, Sound prose t :=
  proper_namedSequence lenient_sound

theorem sound_list : Sound prose (.list types) ↔ ∀ t ∈ types, Sound prose t :=
  proper_list lenient_sound

theorem sound_tuple : Sound prose (.tuple types) ↔ ∀ t ∈ types, Sound prose t :=
  proper_tuple lenient_sound

theorem sound_enum (values : NameSet) : Sound true (.enum values) :=
  sound_iff.2 ⟨⟨trivial, fun _ => rfl⟩, by simp [parts]⟩

theorem sound_boundary (range : Boundary) : Sound true (.boundary range) :=
  sound_iff.2 ⟨⟨trivial, fun _ => rfl⟩, by simp [parts]⟩

theorem sound_literalOf (values : List Literal) : Sound prose (literalOf values) :=
  proper_literalOf lenient_sound values

theorem sound_setOf (h : ∀ t ∈ types, Sound prose t) : Sound prose (setOf types) :=
  proper_setOf lenient_sound h

theorem sound_of_unionMembers (h : Sound prose t) (hu : u ∈ t.unionMembers) :
    Sound prose u ∧ u.isUnion = false :=
  proper_of_unionMembers h hu

theorem sound_unionOf (h : ∀ t ∈ types, Sound prose t) : Sound prose (unionOf types) :=
  proper_unionOf lenient_sound h

theorem sound_dictOf (h : ∀ t ∈ types, Sound prose t) : Sound prose (dictOf types) :=
  proper_dictOf lenient_sound h

end Sound

end ApiType

open ApiType (Proper Lenient OnVars Sound lenient_sound onVars_sound)

/-! ## 3. Declared types -/

section Declared

variable {p : ApiType → Prop} (s : TypeScope)

theorem TypeScope.proper_anyType (hp : Lenient p) (reason : AnyReason) (missing : Option String) :
    Proper p (s.anyType reason missing) := by
  unfold anyType
  split
  · exact ApiType.proper_applied hp _ (by simp)
  · split
    · exact ApiType.proper_unknown hp
    · exact ApiType.proper_named hp _ _

theorem TypeScope.proper_writtenType (hp : Lenient p) (name : String) {args : List ApiType}
    (h : ∀ t ∈ args, Proper p t) : Proper p (s.writtenType name args) := by
  unfold writtenType
  split_ifs
  · exact ApiType.proper_named hp _ _
  · exact ApiType.proper_named hp _ _
  · exact (ApiType.proper_list hp).2 h
  · exact ApiType.proper_setOf hp h
  · exact (ApiType.proper_tuple hp).2 h
  · exact ApiType.proper_dictOf hp h
  · exact ApiType.proper_applied hp _ h

namespace Annotation

mutual
/-- The type of an annotation is proper if its type variables are. -/
theorem proper_type (hp : Lenient p) :
    (a : Annotation) → OnVars p (a.typeVars s) → Proper p (a.type s)
  | .any reason missing, _ => s.proper_anyType hp reason missing
  | .none, _ => ApiType.proper_named hp _ _
  | .inst fullname args, h => ApiType.proper_ofClass hp fullname (proper_types hp args h)
  | .union items, h => ApiType.proper_joined hp (proper_types hp items h)
  | .tuple items, h => (ApiType.proper_tuple hp).2 (proper_types hp items h)
  | .callable parameters result, h =>
    (ApiType.proper_callable hp).2
      ⟨proper_types hp parameters h.left, proper_type hp result h.right⟩
  | .literal value, _ => ApiType.proper_literalOf hp [value]
  | .typeVar name fullname bound, h => by
    rw [typeVars] at h
    have hbound := proper_boundType hp bound h.left
    rw [type]
    split
    · exact ApiType.proper_getD hp hbound
    · rename_i hself
      rw [if_neg hself] at h
      exact (ApiType.proper_typeVar (h.right _ _ (List.mem_singleton.2 rfl))).2 hbound
  | .unbound name args, h => s.proper_writtenType hp name (proper_types hp args h)
  | .typeOf item, h => by
    rw [type, ApiType.proper_namedSequence hp]
    simpa using proper_type hp item h
  | .uninhabited, _ => ApiType.proper_named hp _ _
  | .other _, _ => ApiType.proper_unknown hp

theorem proper_types (hp : Lenient p) : (as : List Annotation) → OnVars p (typeVarsIn s as) →
    ∀ t ∈ types s as, Proper p t
  | [], _ => by simp [types]
  | a :: more, h => by
    rw [types]
    exact List.forall_mem_cons.2 ⟨proper_type hp a h.left, proper_types hp more h.right⟩

theorem proper_boundType (hp : Lenient p) :
    (bound : Option Annotation) → OnVars p (boundTypeVars s bound) →
      ∀ t ∈ boundType s bound, Proper p t
  | Option.none, _ => by simp [boundType]
  | some b, h => by
    rw [boundTypeVars] at h
    rw [boundType]
    split
    · simp
    · rename_i hobject
      rw [if_neg hobject] at h
      simpa using proper_type hp b h
end

mutual
theorem proper_typeVars (hp : Lenient p) : (a : Annotation) → OnVars p (a.typeVars s) →
    ∀ t ∈ a.typeVars s, Proper p t
  | .inst _ args, h => proper_typeVarsIn hp args h
  | .union items, h => proper_typeVarsIn hp items h
  | .tuple items, h => proper_typeVarsIn hp items h
  | .callable parameters result, h =>
    List.forall_mem_append.2
      ⟨proper_typeVarsIn hp parameters h.left, proper_typeVars hp result h.right⟩
  | .typeVar name fullname bound, h => by
    rw [typeVars] at h ⊢
    refine List.forall_mem_append.2 ⟨proper_boundTypeVars hp bound h.left, ?_⟩
    split
    · simp
    · rename_i hself
      rw [if_neg hself] at h
      have hwhole := h.right _ _ (List.mem_singleton.2 rfl)
      simpa using (ApiType.proper_typeVar hwhole).2 (proper_boundType s hp bound h.left)
  | .unbound _ args, h => proper_typeVarsIn hp args h
  | .typeOf item, h => proper_typeVars hp item h
  | .any .., _ | .none, _ | .literal _, _ | .uninhabited, _ | .other _, _ => by simp [typeVars]

theorem proper_typeVarsIn (hp : Lenient p) : (as : List Annotation) → OnVars p (typeVarsIn s as) →
    ∀ t ∈ typeVarsIn s as, Proper p t
  | [], _ => by simp [typeVarsIn]
  | a :: more, h =>
    List.forall_mem_append.2 ⟨proper_typeVars hp a h.left, proper_typeVarsIn hp more h.right⟩

theorem proper_boundTypeVars (hp : Lenient p) :
    (bound : Option Annotation) → OnVars p (boundTypeVars s bound) →
      ∀ t ∈ boundTypeVars s bound, Proper p t
  | Option.none, _ => by simp [boundTypeVars]
  | some b, h => by
    rw [boundTypeVars] at h ⊢
    split
    · simp
    · rename_i hobject
      rw [if_neg hobject] at h
      exact proper_typeVars hp b h
end

variable {s}

theorem proper_declared? (hp : Lenient p) {a : Annotation} {written : Option Annotation}
    (h : OnVars p (a.declaredTypeVars s written)) : ∀ t ∈ a.declared? s written, Proper p t := by
  intro t ht
  unfold declared? at ht
  split at ht
  · cases ht
  · rename_i hinformative
    rw [declaredTypeVars, if_neg hinformative] at h
    cases ht
    exact proper_type s hp _ h

end Annotation

end Declared

namespace Annotation

variable (s : TypeScope)

theorem sound_types (as : List Annotation) : ∀ t ∈ types s as, Sound false t :=
  proper_types s lenient_sound as onVars_sound

theorem sound_boundType (bound : Option Annotation) : ∀ t ∈ boundType s bound, Sound false t :=
  proper_boundType s lenient_sound bound onVars_sound

variable {s} {a : Annotation} {written : Option Annotation}

theorem sound_declared? : ∀ t ∈ a.declared? s written, Sound false t :=
  proper_declared? lenient_sound onVars_sound

theorem sound_declaredTypeVars : ∀ t ∈ a.declaredTypeVars s written, Sound false t := by
  unfold declaredTypeVars
  split
  · simp
  · exact proper_typeVars s lenient_sound _ onVars_sound

end Annotation

theorem Literal.proper_type {p : ApiType → Prop} (hp : Lenient p) (value : Literal) :
    Proper p value.type := by
  cases value <;> exact ApiType.proper_named hp _ _

/-! ## 4. Types of expressions -/

namespace Expression

section Proper

variable {p : ApiType → Prop} {s : TypeScope} {owner : Option ClassHead} {e : Expression}

theorem proper_literalType? (hp : Lenient p) : ∀ t ∈ e.literalType?, Proper p t := by
  intro t ht
  unfold literalType? at ht
  split at ht
  · cases ht
    exact Literal.proper_type hp _
  · split at ht
    · cases ht
      exact ApiType.proper_named hp _ _
    · cases ht

theorem proper_checkedType? (hp : Lenient p) (h : OnVars p (e.checkedTypeVars s)) :
    ∀ t ∈ e.checkedType? s, Proper p t := by
  intro t ht
  obtain ⟨ht, -⟩ := Option.filter_eq_some_iff.1 ht
  obtain ⟨a, ha, ht⟩ := Option.bind_eq_some_iff.1 ht
  simp only [checkedTypeVars, ha] at h
  exact Annotation.proper_declared? hp h t ht

/-- An expression without parts has a type that was checked, in which case its type variables have
been collected, or one without type variables. -/
theorem proper_simpleType? (hp : Lenient p) (hliteral : e.literalType? = none)
    (h : OnVars p (if e.isChecked owner then e.checkedTypeVars s else [])) :
    ∀ t ∈ e.simpleType? s owner, Proper p t := by
  intro t ht
  unfold simpleType? at ht
  split at ht
  · split at ht
    · cases ht
      exact ApiType.proper_named hp _ _
    · rw [if_pos (by simp [isChecked, hliteral, isLogical])] at h
      exact proper_checkedType? hp h t ht
  · split at ht
    · cases ht
      exact ApiType.proper_named hp _ _
    · rename_i hself hlogical
      rw [if_pos] at h
      · exact proper_checkedType? hp h t ht
      · simp only [isChecked, hliteral, Option.isNone_none, hlogical, Bool.not_false, Bool.true_and]

theorem proper_listType (hp : Lenient p) {types : List ApiType} (h : ∀ t ∈ types, Proper p t) :
    Proper p (listType types) := by
  rw [listType, ApiType.proper_list hp]
  split
  · simp
  · simpa using ApiType.proper_unionOf hp h

/-- If all elements of a list have types, none of their type variables is left out. -/
theorem typeVarsUntilUntyped_of_mapM {es : List Expression} {found : List ApiType}
    (h : (types s owner es).mapM id = some found) :
    typeVarsUntilUntyped s owner es = typeVarsIn s owner es := by
  induction es generalizing found with
  | nil => rfl
  | cons e more ih =>
    rw [types, List.mapM_cons] at h
    obtain ⟨first, hfirst, h⟩ := Option.bind_eq_some_iff.1 h
    obtain ⟨rest, hrest, -⟩ := Option.bind_eq_some_iff.1 h
    have hsome : (e.type? s owner).isSome = true := Option.isSome_of_eq_some hfirst
    rw [typeVarsUntilUntyped, typeVarsIn, ih hrest, if_pos hsome]

mutual
theorem proper_type? (hp : Lenient p) : (e : Expression) → OnVars p (e.typeVars s owner) →
    ∀ t ∈ e.type? s owner, Proper p t
  | .tuple items, h => by
    intro t ht
    cases ht
    rw [ApiType.proper_tuple hp]
    intro t ht
    obtain ⟨o, ho, rfl⟩ := List.mem_map.1 ht
    exact ApiType.proper_getD hp (proper_types hp items h o ho)
  | .list items, h => by
    intro t ht
    obtain ⟨found, hfound, rfl⟩ := Option.map_eq_some_iff.1 ht
    rw [typeVars, typeVarsUntilUntyped_of_mapM hfound] at h
    refine proper_listType hp fun t ht => ?_
    obtain ⟨o, ho, rfl⟩ := exists_of_mem_mapM hfound t ht
    exact proper_types hp items h _ ho t rfl
  | .name .., h | .member .., h | .str _, h | .int _, h | .float _, h | .call .., h | .op .., h
  | .comparison _, h | .unary .., h | .conditional .., h | .other _, h => by
    intro t ht
    simp only [type?] at ht
    split at ht
    · rename_i hliteral
      cases ht
      exact proper_literalType? hp _ hliteral
    · rename_i hliteral
      exact proper_simpleType? hp hliteral h t ht

theorem proper_types (hp : Lenient p) : (es : List Expression) → OnVars p (typeVarsIn s owner es) →
    ∀ o ∈ types s owner es, ∀ t ∈ o, Proper p t
  | [], _ => by simp [types]
  | e :: more, h =>
    List.forall_mem_cons.2 ⟨proper_type? hp e h.left, proper_types hp more h.right⟩
end

end Proper

variable {s : TypeScope} {owner : Option ClassHead} {e : Expression}

theorem sound_literalType? : ∀ t ∈ e.literalType?, Sound false t :=
  proper_literalType? lenient_sound

theorem sound_type? (e : Expression) : ∀ t ∈ e.type? s owner, Sound false t :=
  proper_type? lenient_sound e onVars_sound

theorem sound_checkedTypeVars : ∀ t ∈ e.checkedTypeVars s, Sound false t := by
  unfold checkedTypeVars
  split
  · exact Annotation.sound_declaredTypeVars
  · simp

mutual
theorem sound_typeVars : (e : Expression) → ∀ t ∈ e.typeVars s owner, Sound false t
  | .tuple items => sound_typeVarsIn items
  | .list items => sound_typeVarsUntilUntyped items
  | .name .. | .member .. | .str _ | .int _ | .float _ | .call .. | .op .. | .comparison _
  | .unary .. | .conditional .. | .other _ => by
    simp only [typeVars]
    split
    · exact sound_checkedTypeVars
    · simp

theorem sound_typeVarsIn : (es : List Expression) → ∀ t ∈ typeVarsIn s owner es, Sound false t
  | [] => by simp [typeVarsIn]
  | e :: more => List.forall_mem_append.2 ⟨sound_typeVars e, sound_typeVarsIn more⟩

theorem sound_typeVarsUntilUntyped : (es : List Expression) →
    ∀ t ∈ typeVarsUntilUntyped s owner es, Sound false t
  | [] => by simp [typeVarsUntilUntyped]
  | e :: more => by
    rw [typeVarsUntilUntyped]
    refine List.forall_mem_append.2 ⟨sound_typeVars e, ?_⟩
    split
    · exact sound_typeVarsUntilUntyped more
    · simp
end

end Expression

/-! ## 5. Slots of functions -/

section Slots

variable {p : ApiType → Prop}

theorem proper_annotatedSlots (hp : Lenient p) {a : Annotation} {t : ApiType} (h : Proper p t) :
    ∀ u ∈ annotatedSlots a t, Proper p u := by
  unfold annotatedSlots
  split
  · simp
  · split
    · simp
    · split
      · simpa using h
      · exact ApiType.proper_components hp h

theorem proper_columns (hp : Lenient p) {rows : List (List ApiType)}
    (h : ∀ row ∈ rows, ∀ t ∈ row, Proper p t) : ∀ t ∈ columns rows, Proper p t := by
  intro t ht
  obtain ⟨i, -, rfl⟩ := List.mem_map.1 ht
  refine ApiType.proper_unionOf hp fun u hu => ?_
  obtain ⟨row, hrow, rfl⟩ := List.mem_map.1 hu
  cases hcell : row[i]? with
  | none => exact ApiType.proper_named hp _ _
  | some cell => exact h row hrow cell (List.mem_of_getElem? hcell)

theorem proper_slotsOf (hp : Lenient p) {shapes : TypeSet} (h : ∀ t ∈ shapes.toList, Proper p t) :
    ∀ t ∈ slotsOf shapes, Proper p t := by
  unfold slotsOf
  split_ifs
  · simp
  · refine proper_columns hp fun row hrow => ?_
    obtain ⟨t, ht, rfl⟩ := List.mem_map.1 hrow
    exact ApiType.proper_components hp (h t ht)
  · simpa using ApiType.proper_unionOf hp h

end Slots

namespace ModuleContext

variable {p : ApiType → Prop} {ctx : ModuleContext} {function : FunctionHead}
  {body : List Statement} {owner : Option ClassHead}

theorem proper_inferredSlots (hp : Lenient p) (h : OnVars p (ctx.inferredTypeVars owner body)) :
    ∀ t ∈ ctx.inferredSlots owner body, Proper p t := by
  refine proper_slotsOf hp fun t ht => ?_
  obtain ⟨value, hvalue, ht⟩ := List.mem_filterMap.1 (Ascending.mem_of_mem_ofList ht)
  cases value with
  | none =>
    cases ht
    exact ApiType.proper_named hp _ _
  | some e =>
    refine Expression.proper_type? hp e (h.mono fun v hv => ?_) t ht
    exact List.mem_flatMap.2 ⟨some e, hvalue, hv⟩

/-- The slots of a function are proper if the type variables met on the way are. -/
theorem proper_resultSlots (hp : Lenient p)
    (h : OnVars p (ctx.resultTypeVars function body owner)) :
    ∀ t ∈ ctx.resultSlots function body owner, Proper p t := by
  unfold resultTypeVars at h
  unfold resultSlots
  cases hreturn : function.returnType with
  | none =>
    simp only [hreturn] at h
    exact proper_inferredSlots hp h
  | some a =>
    simp only [hreturn] at h
    by_cases huninformative : a.isUninformative = true
    · rw [if_pos huninformative] at h
      unfold Annotation.declared?
      simpa only [if_pos huninformative] using proper_inferredSlots hp h
    · rw [if_neg huninformative] at h
      have hdeclared := Annotation.proper_declared? hp h
      unfold Annotation.declared? at hdeclared ⊢
      simp only [if_neg huninformative] at hdeclared ⊢
      exact proper_annotatedSlots hp (hdeclared _ rfl)

theorem sound_resultSlots : ∀ t ∈ ctx.resultSlots function body owner, Sound false t :=
  proper_resultSlots lenient_sound onVars_sound

theorem sound_inferredTypeVars : ∀ t ∈ ctx.inferredTypeVars owner body, Sound false t := by
  intro t ht
  obtain ⟨value, -, ht⟩ := List.mem_flatMap.1 ht
  cases value with
  | none => cases ht
  | some e => exact Expression.sound_typeVars e t ht

theorem sound_resultTypeVars : ∀ t ∈ ctx.resultTypeVars function body owner, Sound false t := by
  unfold resultTypeVars
  split
  · split
    · exact sound_inferredTypeVars
    · exact Annotation.sound_declaredTypeVars
  · exact sound_inferredTypeVars

end ModuleContext

/-! ## 6. Types in prose -/

namespace TypeText

theorem sound_ofName (t : List Char) : Sound true (ofName t) := by
  unfold ofName
  dsimp only
  split_ifs <;> exact ApiType.sound_named _ _

theorem sound_subscripted (head : List Char) {args : List ApiType} (h : ∀ t ∈ args, Sound true t) :
    Sound true (subscripted head args) := by
  unfold subscripted
  dsimp only
  split_ifs
  · exact ApiType.sound_list.2 h
  · exact ApiType.sound_setOf h
  · exact ApiType.sound_tuple.2 h
  · exact ApiType.sound_dictOf h
  · refine ApiType.sound_unionOf (List.forall_mem_append.2 ⟨h, ?_⟩)
    exact List.forall_mem_singleton.2 (ApiType.sound_named _ _)
  · exact ApiType.sound_unionOf h
  · split
    · exact ApiType.sound_namedSequence.2 h
    · exact sound_ofName _

theorem Shape.sound_type? (shape : Shape) {types : List ApiType} (h : ∀ t ∈ types, Sound true t) :
    ∀ t ∈ shape.type? types, Sound true t := by
  intro t ht
  unfold Shape.type? at ht
  split at ht <;> cases ht
  · exact ApiType.sound_enum _
  · exact ApiType.sound_unionOf h
  · rename_i container _
    cases container with
    | list => exact ApiType.sound_list.2 h
    | set => exact ApiType.sound_setOf h
    | tuple => exact ApiType.sound_tuple.2 h
  · exact sound_subscripted _ h
  · exact sound_ofName _

theorem sound_parseType (text : List Char) : ∀ t ∈ parseType text, Sound true t := by
  rw [parseType]
  refine Shape.sound_type? _ fun t ht => ?_
  obtain ⟨a, -, ha⟩ := List.mem_filterMap.1 ht
  exact sound_parseType a.1 t ha
termination_by text.length
decreasing_by exact length_lt_of_mem_parts a.2

theorem sound_parse (text : List Char) : ∀ t ∈ (parse text).type, Sound true t := by
  intro t ht
  unfold parse at ht
  simp only at ht
  split at ht
  · cases ht
  · cases ht
    refine ApiType.sound_unionOf fun t ht => ?_
    obtain ⟨item, -, ht⟩ := List.mem_filterMap.1 ht
    cases item with
    | type text => exact sound_parseType text t ht
    | optional | default => cases ht

end TypeText

namespace Constraint

theorem sound_values? {description : List Char} : ∀ t ∈ values? description, Sound true t := by
  intro t ht
  obtain ⟨inner, -, ht⟩ := Option.bind_eq_some_iff.1 ht
  split at ht
  · cases ht
  · cases ht
    exact ApiType.sound_enum _

theorem Range.sound_narrowFirst {r : Range} {types narrowed : List ApiType}
    (h : ∀ t ∈ types, Sound true t) (hnarrowed : r.narrowFirst types = some narrowed) :
    ∀ t ∈ narrowed, Sound true t := by
  induction types generalizing narrowed with
  | nil => cases hnarrowed
  | cons t types ih =>
    obtain ⟨ht, htypes⟩ := List.forall_mem_cons.1 h
    rw [narrowFirst] at hnarrowed
    split at hnarrowed
    · cases hnarrowed
      exact List.forall_mem_cons.2 ⟨ApiType.sound_boundary _, htypes⟩
    · obtain ⟨rest, hrest, rfl⟩ := Option.map_eq_some_iff.1 hnarrowed
      exact List.forall_mem_cons.2 ⟨ht, ih htypes hrest⟩

theorem sound_narrow? {t : ApiType} {description : List Char} (h : Sound true t) :
    ∀ u ∈ narrow? t description, Sound true u := by
  intro u hu
  obtain ⟨r, -, hu⟩ := Option.bind_eq_some_iff.1 hu
  unfold Range.narrow? at hu
  split at hu
  · cases hu
    exact ApiType.sound_boundary _
  · split at hu
    · obtain ⟨narrowed, hnarrowed, rfl⟩ := Option.map_eq_some_iff.1 hu
      refine ApiType.sound_unionOf (Range.sound_narrowFirst ?_ hnarrowed)
      exact (ApiType.sound_iff.1 h).2
    · cases hu

end Constraint

end ApiSurface
