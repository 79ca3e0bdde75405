import ApiSurface.Proofs.CanonicalTypes
import ApiSurface.Proofs.PackageGraph
/-!
# The types in a model

Rows hold types in two places.  Some say what the code is: the types of parameters, attributes and
results, the type variables of functions and the bounds of type parameters.  The others stand in
the docstring of a row and say what its author wrote.  Nothing crosses over: a result takes its name
from the docstring at most, never its type (`mem_nameResults`).

So all types in the model of a package are canonical, and those of the code are free of what only
prose can say.
-/

namespace ApiSurface

open ApiType (Sound Proper Lenient OnVars lenient_sound onVars_sound)

/-! ## 1. Types of rows -/

namespace Entity

/-- The types in a row that come from code. -/
def codeTypes : Entity → List ApiType
  | .class r => r.typeParameters.filterMap TypeParameter.bound
  | .function r => r.typeVarTypes.toList
  | .parameter r => r.type.toList
  | .attribute r => r.type.toList
  | .result r => [r.type]
  | .module _ | .enum _ | .enumInstance _ => []

/-- The types in the docstring of a row. -/
def proseTypes : Entity → List ApiType
  | .parameter r => r.docstring.type.toList
  | .attribute r => r.docstring.type.toList
  | .result r => (r.docstring.bind ResultDescription.type).toList
  | .module _ | .class _ | .function _ | .enum _ | .enumInstance _ => []

/-- That all types of a row are sound, with prose in its docstring only. -/
structure HasSoundTypes (e : Entity) : Prop where
  code : ∀ t ∈ e.codeTypes, Sound false t
  prose : ∀ t ∈ e.proseTypes, Sound true t

/-- A row that shrinks keeps its types. -/
theorem HasSoundTypes.shrink {e : Entity} (h : e.HasSoundTypes) (a : Api) :
    (e.shrink a).HasSoundTypes := by
  cases e with
  | module | «class» | function | parameter | «attribute» | result | enum | enumInstance =>
    exact ⟨h.code, h.prose⟩

end Entity

/-! ## 2. Docstrings -/

namespace Docstring.Entry

theorem sound_parameterType (e : Entry) : ∀ t ∈ e.parameterType, Sound true t := by
  intro t ht
  obtain ⟨u, hu, rfl⟩ := Option.map_eq_some_iff.1 ht
  have hsound : Sound true u := by
    split at hu
    · rename_i hvalues
      split at hu
      · cases hu
        exact Constraint.sound_values? _ hvalues
      · exact TypeText.sound_parse e.typeText u hu
    · exact TypeText.sound_parse e.typeText u hu
  cases hnarrow : Constraint.narrow? u e.description with
  | none => exact hsound
  | some narrowed => exact Constraint.sound_narrow? hsound narrowed hnarrow

/-- What is said of a parameter, if an entry speaks of it. -/
theorem sound_toParameter (entry : Option Entry) :
    ∀ t ∈ ((entry.map toParameter).getD {}).type, Sound true t := by
  cases entry with
  | none => simp
  | some e => exact e.sound_parameterType

theorem sound_toAttribute (entry : Option Entry) :
    ∀ t ∈ ((entry.map toAttribute).getD {}).type, Sound true t := by
  cases entry with
  | none => simp
  | some e => exact TypeText.sound_parse e.typeText

end Docstring.Entry

/-- That a provider speaks of sound types only. -/
structure DocstringProvider.IsSound (p : DocstringProvider) : Prop where
  ofParameter : ∀ function owner name, ∀ t ∈ (p.describeParameter function owner name).type,
    Sound true t
  ofAttribute : ∀ head name, ∀ t ∈ (p.describeAttribute head name).type, Sound true t
  ofResult : ∀ function, ∀ d ∈ p.describeResults function, ∀ t ∈ d.type, Sound true t

theorem DocstringStyle.isSound (style : DocstringStyle) : style.provider.IsSound where
  ofParameter _ _ _ := Docstring.Entry.sound_toParameter _
  ofAttribute _ _ := Docstring.Entry.sound_toAttribute _
  ofResult function d hd t ht := by
    obtain ⟨e, -, rfl⟩ := List.mem_map.1 hd
    exact TypeText.sound_parse e.typeText t ht

/-! ## 3. Rows of members -/

namespace Argument

variable {s : TypeScope} {a : Argument}

theorem proper_type? {p : ApiType → Prop} (hp : Lenient p) (h : OnVars p (a.typeVars s)) :
    ∀ t ∈ a.type? s, Proper p t := by
  intro t ht
  rcases Option.or_eq_some_iff.1 ht with hdeclared | ⟨-, hdefault⟩
  · obtain ⟨d, hd, ht⟩ := Option.bind_eq_some_iff.1 hdeclared
    simp only [typeVars, hd] at h
    exact Annotation.proper_declared? hp h t ht
  · obtain ⟨value, -, rfl⟩ := Option.map_eq_some_iff.1 hdefault
    exact Literal.proper_type hp value

theorem sound_type? : ∀ t ∈ a.type? s, Sound false t := proper_type? lenient_sound onVars_sound

theorem sound_typeVars : ∀ t ∈ a.typeVars s, Sound false t := by
  unfold typeVars
  split
  · exact Annotation.sound_declaredTypeVars
  · simp

end Argument

/-- A named slot keeps its type, and its docstring is a declared result or the one in its place. -/
theorem mem_nameSlots {functionId : String} {declared : List ResultDescription} {r : ResultRow}
    {slots : List (ApiType × Option ResultDescription)} {taken : List String} {n : Nat}
    (h : r ∈ nameSlots functionId declared taken n slots) :
    ∃ slot ∈ slots, r.type = slot.1 ∧ ∀ d ∈ r.docstring, d ∈ declared ∨ slot.2 = some d := by
  induction slots generalizing taken n with
  | nil => cases h
  | cons slot slots ih =>
    rw [nameSlots] at h
    split at h
    · rename_i d hd
      rcases List.mem_cons.1 h with rfl | h
      · refine ⟨slot, List.mem_cons_self, rfl, fun d' hd' => .inl ?_⟩
        cases hd'
        exact List.mem_of_find?_eq_some hd
      · obtain ⟨slot', hslot', hr⟩ := ih h
        exact ⟨slot', List.mem_cons_of_mem _ hslot', hr⟩
    · rcases List.mem_cons.1 h with rfl | h
      · exact ⟨slot, List.mem_cons_self, rfl, fun d' hd' => .inr hd'⟩
      · obtain ⟨slot', hslot', hr⟩ := ih h
        exact ⟨slot', List.mem_cons_of_mem _ hslot', hr⟩

theorem mem_aligned {slots : List ApiType} {declared : List ResultDescription}
    {slot : ApiType × Option ResultDescription} (h : slot ∈ aligned slots declared) :
    slot.1 ∈ slots ∧ ∀ d ∈ slot.2, d ∈ declared := by
  unfold aligned at h
  split at h
  · obtain ⟨hslot, hd⟩ := List.of_mem_zip h
    refine ⟨hslot, fun d hd' => ?_⟩
    obtain ⟨d', hmem, hd''⟩ := List.mem_map.1 hd
    rw [← hd''] at hd'
    cases hd'
    exact hmem
  · obtain ⟨t, ht, rfl⟩ := List.mem_map.1 h
    exact ⟨ht, fun d hd => by cases hd⟩

/-- The type of a result is one of the slots, and its docstring one of those declared. -/
theorem mem_nameResults {functionId : String} {slots : List ApiType}
    {declared : List ResultDescription} {r : ResultRow}
    (h : r ∈ nameResults functionId slots declared) :
    r.type ∈ slots ∧ ∀ d ∈ r.docstring, d ∈ declared := by
  have hnamed : r ∈ nameSlots functionId declared [] 0 (aligned slots declared) →
      r.type ∈ slots ∧ ∀ d ∈ r.docstring, d ∈ declared := by
    intro h
    obtain ⟨slot, hslot, htype, hdocstring⟩ := mem_nameSlots h
    obtain ⟨hmem, hplace⟩ := mem_aligned hslot
    refine ⟨htype ▸ hmem, fun d hd => ?_⟩
    exact (hdocstring d hd).elim id (hplace d)
  unfold nameResults at h
  split at h
  · split at h
    · exact hnamed h
    · rw [List.mem_singleton.1 h]
      simp [resultRow]
  · exact hnamed h

namespace ModuleContext

variable {ctx : ModuleContext}

theorem sound_attributeType? {a : Assignment} {target : Target} :
    ∀ t ∈ ctx.attributeType? a target, Sound false t := by
  intro t ht
  rcases Option.or_eq_some_iff.1 ht with hdeclared | ⟨-, hvalue⟩
  · split at hdeclared
    · obtain ⟨d, -, hd⟩ := Option.bind_eq_some_iff.1 hdeclared
      exact Annotation.sound_declared? t hd
    · cases hdeclared
  · obtain ⟨e, -, he⟩ := Option.bind_eq_some_iff.1 hvalue
    exact Expression.sound_literalType? t he

theorem sound_functionTypeVars {f : FunctionFrame} {owner : Option ClassHead} :
    ∀ t ∈ ctx.functionTypeVars f owner, Sound false t := by
  refine List.forall_mem_append.2 ⟨fun t ht => ?_, sound_resultTypeVars⟩
  obtain ⟨a, -, ht⟩ := List.mem_flatMap.1 ht
  exact Argument.sound_typeVars t ht

theorem sound_typeParameters {scope : Scope} {head : ClassHead} {members : List Member} :
    ∀ p ∈ (ctx.finishedClass scope head members).typeParameters, ∀ t ∈ p.bound, Sound false t := by
  have hopened := ClassFrame.foldl_absorb_withoutMembers ctx (.start ctx scope head) members
  have hparameters : (ctx.finishedClass scope head members).typeParameters
      = head.typeVars.map ctx.typeParameter := congrArg ClassRow.typeParameters hopened
  rw [hparameters]
  intro p hp
  obtain ⟨v, -, rfl⟩ := List.mem_map.1 hp
  exact Annotation.sound_boundType ctx.scope v.upperBound

end ModuleContext

theorem Member.hasSoundTypes_of_brings {ctx : ModuleContext} (hstyle : ctx.style.IsSound)
    {m : Member} {e : Entity} (h : m.Brings ctx e) : e.HasSoundTypes := by
  cases m with
  | «class» scope head members =>
    rcases h with h | h
    · obtain ⟨r, hr, rfl⟩ := List.mem_map.1 h
      obtain ⟨b, -, rfl⟩ := List.mem_map.1 hr
      constructor
      · intro t ht
        exact ModuleContext.sound_attributeType? t (Option.mem_toList.1 ht)
      · intro t ht
        exact hstyle.ofAttribute _ _ t (Option.mem_toList.1 ht)
    · cases h
      refine ⟨fun t ht => ?_, by simp [Entity.proseTypes]⟩
      obtain ⟨p, hp, ht⟩ := List.mem_filterMap.1 ht
      exact ModuleContext.sound_typeParameters p hp t ht
  | enum scope head body =>
    rcases h with h | h
    · obtain ⟨name, -, rfl⟩ := List.mem_map.1 h
      exact ⟨by simp [Entity.codeTypes], by simp [Entity.proseTypes]⟩
    · cases h
      exact ⟨by simp [Entity.codeTypes], by simp [Entity.proseTypes]⟩
  | function scope head body =>
    rcases h with h | h
    · rcases List.mem_append.1 h with h | h
      · obtain ⟨r, hr, rfl⟩ := List.mem_map.1 h
        obtain ⟨a, -, rfl⟩ := List.mem_map.1 hr
        constructor
        · intro t ht
          exact Argument.sound_type? t (Option.mem_toList.1 ht)
        · intro t ht
          exact hstyle.ofParameter _ _ _ t (Option.mem_toList.1 ht)
      · obtain ⟨r, hr, rfl⟩ := List.mem_map.1 h
        obtain ⟨htype, hdocstring⟩ := mem_nameResults hr
        constructor
        · exact List.forall_mem_singleton.2 (ModuleContext.sound_resultSlots _ htype)
        · intro t ht
          obtain ⟨d, hd, ht⟩ := Option.bind_eq_some_iff.1 (Option.mem_toList.1 ht)
          exact hstyle.ofResult head d (hdocstring d hd) t ht
    · cases h
      refine ⟨fun t ht => ?_, by simp [Entity.proseTypes]⟩
      exact ModuleContext.sound_functionTypeVars t (Ascending.mem_of_mem_ofList ht)
  | assignment a => rcases h with h | h <;> cases h

/-! ## 4. Rows of a package -/

theorem SourceFile.hasSoundTypes {f : SourceFile} {ctx : ModuleContext} (hstyle : ctx.style.IsSound)
    {e : Entity} (he : (f.model ctx).Holds e) : e.HasSoundTypes := by
  rcases mem_entities_iff.1 he.of_foldl_add with rfl | ⟨m, -, hm⟩
  · exact ⟨by simp [Entity.codeTypes], by simp [Entity.proseTypes]⟩
  · exact Member.hasSoundTypes_of_brings hstyle hm

theorem hasSoundTypes_of_modelOf {files : List SourceFile} {o : Options} {e : Entity}
    (he : (modelOf files o).Holds e) : e.HasSoundTypes := by
  obtain ⟨part, hpart, hrow⟩ := holds_modelOf he
  obtain ⟨f, -, rfl⟩ := List.mem_map.1 hpart
  exact SourceFile.hasSoundTypes o.style.isSound hrow

/-- **All types are canonical.**  For all files and options and every row of the model: its types,
those in its docstring included, are canonical at every depth, and its types outside the docstring
have no enum and no range in them. -/
theorem analyze_types_canonical (files : List SourceFile) (o : Options) :
    ∃ api, analyze files o = .ok api ∧ ∀ e, api.Holds e →
      (∀ t ∈ e.codeTypes ++ e.proseTypes, t.Canonical) ∧ ∀ t ∈ e.codeTypes, t.WithoutProse := by
  obtain ⟨view, hview, hanalyze⟩ := analyze_eq_view files o
  refine ⟨_, hanalyze, fun e he => ?_⟩
  have hsound : e.HasSoundTypes := by
    cases hpublic : o.publicOnly with
    | false =>
      rw [hpublic] at he
      exact hasSoundTypes_of_modelOf he
    | true =>
      rw [hpublic, if_pos rfl] at he
      obtain ⟨e₀, hoffered, rfl⟩ := (Api.holds_publicView hview).1 he
      exact (hasSoundTypes_of_modelOf hoffered.holds).shrink _
  refine ⟨?_, fun t ht => (hsound.code t ht).withoutProse⟩
  exact List.forall_mem_append.2
    ⟨fun t ht => (hsound.code t ht).canonical, fun t ht => (hsound.prose t ht).canonical⟩

end ApiSurface
