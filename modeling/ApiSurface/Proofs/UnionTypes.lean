import ApiSurface.Proofs.InferredSlots
/-!
# Types of unions

The type of a union joins the types of its items: a union of all their members, or one literal type
if all of them are literals.  Neither depends on the order of the items or on how often one stands
there.

An item that is a union itself is joined first, and only then meets the items around it.  As long as
it stays a union, its members are taken out again (`mem_unionMembers_unionOf`).  But with no items
it has become `unknown`, and with literals alone one literal type, and nothing takes these apart any
more.  So an inner union can be written out exactly if it is none of the two, or if what it has
become makes no difference (`Dissolves`).
-/

namespace ApiSurface

namespace ApiType

variable {prose : Bool} {t u : ApiType} {types types' inner others : List ApiType}

/-! ## 1. Members of a union -/

theorem unionMembers_of_isUnion_eq_false (h : t.isUnion = false) : t.unionMembers = [t] := by
  cases t with
  | union => cases h
  | unknown | named | namedSequence | enum | boundary | list | set | tuple | dict | callable
  | literal | final | typeVar => rfl

theorem unionMembers_ne_nil (h : Sound prose t) : t.unionMembers ≠ [] := by
  cases t with
  | union types =>
    obtain ⟨⟨⟨hlength, -⟩, -⟩, -⟩ := sound_iff.1 h
    rintro rfl
    simp at hlength
  | unknown | named | namedSequence | enum | boundary | list | set | tuple | dict | callable
  | literal | final | typeVar => simp [unionMembers]

/-- The members of a union of sound types are those of the types. -/
theorem mem_unionMembers_unionOf (h : ∀ t ∈ types, Sound prose t) (hne : types ≠ []) :
    u ∈ (unionOf types).unionMembers ↔ u ∈ types.flatMap unionMembers := by
  have hinjective : Function.Injective key := fun _ _ heq => key_injective heq
  have hmem : ∀ v, v ∈ (Ascending.ofList (types.flatMap unionMembers) : TypeSet).toList
      ↔ v ∈ types.flatMap unionMembers := fun v => Ascending.mem_ofList_iff hinjective
  rw [unionOf]
  cases hall : (Ascending.ofList (types.flatMap unionMembers) : TypeSet).toList with
  | nil =>
    rw [hall] at hmem
    obtain ⟨t, ht⟩ := List.exists_mem_of_ne_nil types hne
    obtain ⟨v, hv⟩ := List.exists_mem_of_ne_nil _ (unionMembers_ne_nil (h t ht))
    cases (hmem v).2 (List.mem_flatMap.2 ⟨t, ht, hv⟩)
  | cons v rest =>
    rw [hall] at hmem
    cases rest with
    | nil =>
      obtain ⟨t, ht, hv⟩ := List.mem_flatMap.1 ((hmem v).1 List.mem_cons_self)
      have hflat : v.isUnion = false := (sound_of_unionMembers (h t ht) hv).2
      rw [← hmem u, unionMembers_of_isUnion_eq_false hflat]
    | cons v' rest => exact hmem u

/-- Unions of sound types are the same exactly if their members are. -/
theorem unionOf_eq_iff (h : ∀ t ∈ types, Sound prose t) (hne : types ≠ [])
    (h' : ∀ t ∈ types', Sound prose t) (hne' : types' ≠ []) :
    unionOf types = unionOf types'
      ↔ ∀ u, u ∈ types.flatMap unionMembers ↔ u ∈ types'.flatMap unionMembers := by
  refine ⟨fun heq u => ?_, unionOf_congr_members⟩
  rw [← mem_unionMembers_unionOf h hne, heq, mem_unionMembers_unionOf h' hne']

/-! ## 2. Joined types -/

def isLiteral (t : ApiType) : Bool := t.literals?.isSome

theorem isLiteral_iff : t.isLiteral = true ↔ ∃ values, t = .literal values := by
  cases t <;> simp [isLiteral, literals?]

/-- The values that a type lists, if it is a literal type. -/
def literals (t : ApiType) : List Literal := t.literals?.getD []

theorem unionMembers_of_isLiteral (h : t.isLiteral = true) : t.unionMembers = [t] := by
  obtain ⟨values, rfl⟩ := isLiteral_iff.1 h
  rfl

theorem flatMap_unionMembers_of_literals (h : ∀ t ∈ types, t.isLiteral = true) :
    types.flatMap unionMembers = types := by
  calc types.flatMap unionMembers = types.flatMap fun t => [t] :=
        List.flatMap_congr fun t ht => unionMembers_of_isLiteral (h t ht)
    _ = types := by simp

theorem literalOf_congr {values values' : List Literal} (h : ∀ l, l ∈ values ↔ l ∈ values') :
    literalOf values = literalOf values' := by
  have hinjective : Function.Injective Literal.key := fun _ _ => readable_literalKey.injective
  have hsets : (Ascending.ofList values : LiteralSet) = Ascending.ofList values' := by
    refine Ascending.ext_mem fun l => ?_
    rw [Ascending.mem_ofList_iff hinjective, Ascending.mem_ofList_iff hinjective, h]
  rw [literalOf, literalOf, hsets]

theorem mem_literals_literalOf {values : List Literal} {l : Literal} :
    l ∈ (literalOf values).literals ↔ l ∈ values :=
  Ascending.mem_ofList_iff fun _ _ => readable_literalKey.injective

theorem mapM_literals?_of_literals (h : ∀ t ∈ types, t.isLiteral = true) :
    types.mapM literals? = some (types.map literals) := by
  induction types with
  | nil => rfl
  | cons t types ih =>
    rw [List.forall_mem_cons] at h
    obtain ⟨values, rfl⟩ := isLiteral_iff.1 h.1
    rw [List.mapM_cons, ih h.2]
    rfl

theorem isLiteral_of_mapM_literals? {values : List (List Literal)}
    (h : types.mapM literals? = some values) : ∀ t ∈ types, t.isLiteral = true := by
  induction types generalizing values with
  | nil => simp
  | cons t types ih =>
    rw [List.mapM_cons] at h
    obtain ⟨first, hfirst, h⟩ := Option.bind_eq_some_iff.1 h
    obtain ⟨rest, hrest, -⟩ := Option.bind_eq_some_iff.1 h
    exact List.forall_mem_cons.2 ⟨Option.isSome_of_eq_some hfirst, ih hrest⟩

theorem joined_of_literals (hne : types ≠ []) (h : ∀ t ∈ types, t.isLiteral = true) :
    joined types = literalOf (types.flatMap literals) := by
  cases types with
  | nil => exact absurd rfl hne
  | cons t types =>
    simp only [joined, mapM_literals?_of_literals h, List.flatMap_def]

theorem joined_of_other (h : ¬ ∀ t ∈ types, t.isLiteral = true) :
    joined types = unionOf types := by
  unfold joined
  split
  · rename_i values hvalues
    exact absurd (isLiteral_of_mapM_literals? hvalues) h
  · rfl

/-- What is joined counts, not its order or number. -/
theorem joined_congr (h : ∀ t, t ∈ types ↔ t ∈ types') : joined types = joined types' := by
  have hnil : types = [] ↔ types' = [] := by
    simp only [List.eq_nil_iff_forall_not_mem, h]
  have hall : (∀ t ∈ types, t.isLiteral = true) ↔ ∀ t ∈ types', t.isLiteral = true := by
    simp only [h]
  by_cases hne : types = []
  · rw [hne, hnil.1 hne]
  · by_cases hliterals : ∀ t ∈ types, t.isLiteral = true
    · rw [joined_of_literals hne hliterals, joined_of_literals (mt hnil.2 hne) (hall.1 hliterals)]
      refine literalOf_congr fun l => ?_
      simp only [List.mem_flatMap, h]
    · rw [joined_of_other hliterals, joined_of_other (mt hall.2 hliterals), unionOf_congr h]

/-! ## 3. Inner unions -/

/-- That the types of an inner union can stand among other types in place of what they are joined
to.  Nothing at all is joined to `unknown`, which the others then have to bring themselves; and
literals alone to one literal type, which has to be among the types already, as have all that it
takes the place of. -/
structure Dissolves (inner others : List ApiType) : Prop where
  empty : inner = [] → others = [] ∨ .unknown ∈ others.flatMap unionMembers
  literals : inner ≠ [] → (∀ t ∈ inner, t.isLiteral = true) →
    (∀ t ∈ others, t.isLiteral = true)
      ∨ (joined inner ∈ inner ∨ joined inner ∈ others.flatMap unionMembers)
        ∧ ∀ t ∈ inner, t ≠ joined inner → t ∈ others.flatMap unionMembers

/-- An empty union is `unknown`, and is seen unless the others bring that themselves. -/
theorem joined_cons_unknown_eq_iff (hothers : ∀ t ∈ others, Sound prose t) :
    joined (.unknown :: others) = joined others
      ↔ others = [] ∨ .unknown ∈ others.flatMap unionMembers := by
  have hsound : ∀ t ∈ .unknown :: others, Sound prose t :=
    List.forall_mem_cons.2 ⟨sound_unknown, hothers⟩
  have hother : ¬ ∀ t ∈ .unknown :: others, t.isLiteral = true := by simp [isLiteral, literals?]
  by_cases hnil : others = []
  · subst hnil
    exact iff_of_true rfl (.inl rfl)
  rw [joined_of_other hother, or_iff_right hnil]
  by_cases hliterals : ∀ t ∈ others, t.isLiteral = true
  · rw [joined_of_literals hnil hliterals, flatMap_unionMembers_of_literals hliterals]
    refine iff_of_false (fun heq => ?_) (fun hmem => by cases hliterals _ hmem)
    have hmem : .unknown ∈ (unionOf (.unknown :: others)).unionMembers :=
      (mem_unionMembers_unionOf hsound (by simp)).2 (by simp [unionMembers])
    rw [heq] at hmem
    cases List.mem_singleton.1 hmem
  · rw [joined_of_other hliterals, unionOf_eq_iff hsound (by simp) hothers hnil]
    simp [unionMembers]

/-- Literals alone are joined to one literal type, which takes their place unless all around it are
literals too. -/
theorem joined_cons_literals_eq_iff (hne : inner ≠ []) (hinner : ∀ t ∈ inner, t.isLiteral = true)
    (hsound : ∀ t ∈ inner ++ others, Sound prose t) :
    joined (joined inner :: others) = joined (inner ++ others)
      ↔ (∀ t ∈ others, t.isLiteral = true)
        ∨ (joined inner ∈ inner ∨ joined inner ∈ others.flatMap unionMembers)
          ∧ ∀ t ∈ inner, t ≠ joined inner → t ∈ others.flatMap unionMembers := by
  have hjoined := joined_of_literals hne hinner
  have hliteral : (joined inner).isLiteral = true := by
    rw [hjoined]
    rfl
  by_cases hliterals : ∀ t ∈ others, t.isLiteral = true
  · refine iff_of_true ?_ (.inl hliterals)
    rw [joined_of_literals (by simp) (List.forall_mem_cons.2 ⟨hliteral, hliterals⟩),
      joined_of_literals (by simp [hne]) (List.forall_mem_append.2 ⟨hinner, hliterals⟩)]
    refine literalOf_congr fun l => ?_
    rw [List.flatMap_cons, List.flatMap_append, List.mem_append, List.mem_append, hjoined,
      mem_literals_literalOf]
  · have hcons : ∀ t ∈ joined inner :: others, Sound prose t := by
      rw [hjoined]
      exact List.forall_mem_cons.2 ⟨sound_literalOf _, (List.forall_mem_append.1 hsound).2⟩
    rw [joined_of_other fun h => hliterals (List.forall_mem_cons.1 h).2,
      joined_of_other fun h => hliterals (List.forall_mem_append.1 h).2,
      unionOf_eq_iff hcons (by simp) hsound (by simp [hne]), List.flatMap_cons,
      unionMembers_of_isLiteral hliteral, List.flatMap_append,
      flatMap_unionMembers_of_literals hinner, or_iff_right hliterals]
    constructor
    · intro h
      refine ⟨List.mem_append.1 ((h _).1 List.mem_cons_self), fun t ht hother => ?_⟩
      exact (List.mem_cons.1 ((h t).2 (List.mem_append_left _ ht))).resolve_left hother
    · rintro ⟨hkept, hreplaced⟩ u
      rw [List.singleton_append, List.mem_cons, List.mem_append]
      refine ⟨?_, ?_⟩
      · rintro (rfl | hu)
        · exact hkept
        · exact .inr hu
      · rintro (hu | hu)
        · by_cases hsame : u = joined inner
          · exact .inl hsame
          · exact .inr (hreplaced u hu hsame)
        · exact .inr hu

/-- The union of sound types is a literal type only if all of them are. -/
theorem isLiteral_of_isLiteral_unionOf (h : ∀ t ∈ types, Sound prose t)
    (hunion : (unionOf types).isLiteral = true) : ∀ t ∈ types, t.isLiteral = true := by
  intro t ht
  have hmember : ∀ u ∈ t.unionMembers, u = unionOf types := by
    intro u hu
    have hmem := (mem_unionMembers_unionOf h (List.ne_nil_of_mem ht)).2
      (List.mem_flatMap.2 ⟨t, ht, hu⟩)
    rwa [unionMembers_of_isLiteral hunion, List.mem_singleton] at hmem
  have hself : unionOf types ∈ t.unionMembers := by
    obtain ⟨u, hu⟩ := List.exists_mem_of_ne_nil _ (unionMembers_ne_nil (h t ht))
    rwa [← hmember u hu]
  have hsame : t = unionOf types :=
    calc t = unionOf [t] := (unionOf_singleton (sound_iff.1 (h t ht)).1.1).symm
      _ = unionOf [unionOf types] := by
        refine unionOf_congr_members fun u => ?_
        rw [List.flatMap_singleton, List.flatMap_singleton, unionMembers_of_isLiteral hunion,
          List.mem_singleton]
        exact ⟨hmember u, fun hu => hu ▸ hself⟩
      _ = unionOf types := unionOf_singleton (sound_iff.1 (sound_unionOf h)).1.1
  rw [hsame, hunion]

/-- An inner union that stays one is taken apart by the outer one. -/
theorem joined_cons_unionOf (h : ¬ ∀ t ∈ inner, t.isLiteral = true)
    (hinner : ∀ t ∈ inner, Sound prose t) :
    joined (joined inner :: others) = joined (inner ++ others) := by
  have hne : inner ≠ [] := by
    rintro rfl
    exact h (by simp)
  have hunion := mt (isLiteral_of_isLiteral_unionOf hinner) h
  rw [joined_of_other h, joined_of_other fun hall => hunion (List.forall_mem_cons.1 hall).1,
    joined_of_other fun hall => h (List.forall_mem_append.1 hall).1]
  refine unionOf_congr_members fun u => ?_
  rw [List.flatMap_cons, List.flatMap_append, List.mem_append, List.mem_append,
    mem_unionMembers_unionOf hinner hne]

/-- What an inner union is joined to can be replaced by its types exactly if it dissolves. -/
theorem joined_cons_joined_eq_iff (hinner : ∀ t ∈ inner, Sound prose t)
    (hothers : ∀ t ∈ others, Sound prose t) :
    joined (joined inner :: others) = joined (inner ++ others) ↔ Dissolves inner others := by
  by_cases hnil : inner = []
  · subst hnil
    exact (joined_cons_unknown_eq_iff hothers).trans
      ⟨fun h => ⟨fun _ => h, fun hne => absurd rfl hne⟩, fun h => h.empty rfl⟩
  · by_cases hliterals : ∀ t ∈ inner, t.isLiteral = true
    · have hsound := List.forall_mem_append.2 ⟨hinner, hothers⟩
      rw [joined_cons_literals_eq_iff hnil hliterals hsound]
      exact ⟨fun h => ⟨fun hempty => absurd hempty hnil, fun _ _ => h⟩,
        fun h => h.literals hnil hliterals⟩
    · refine iff_of_true (joined_cons_unionOf hliterals hinner) ?_
      exact ⟨fun hempty => absurd hempty hnil, fun _ hall => absurd hall hliterals⟩

end ApiType

/-! ## 4. Annotations -/

namespace Annotation

theorem types_eq_map (s : TypeScope) (as : List Annotation) : types s as = as.map (type s) := by
  induction as with
  | nil => rfl
  | cons a as ih => rw [types, ih, List.map_cons]

/-- **A union means the same however it is written, if its inner unions dissolve.**  Seen from
anywhere, unions with the same items have the same type, in whatever order and number these are
written.  An item that is a union itself can be replaced by the items of that exactly if it
dissolves among the other items: always if it has an item that is not a literal type; without items
only if the other items are none or bring `unknown`; and with literal types alone only if the others
are literal types too, or if the one literal type to which they are joined makes no difference. -/
theorem union_type_kept_iff (s : TypeScope) :
    (∀ items items', (∀ a, a ∈ items ↔ a ∈ items') →
      (union items).type s = (union items').type s)
    ∧ ∀ before inner after,
      (union (before ++ .union inner :: after)).type s
          = (union (before ++ inner ++ after)).type s
        ↔ ApiType.Dissolves (types s inner) (types s (before ++ after)) := by
  refine ⟨fun items items' h => ?_, fun before inner after => ?_⟩
  · refine ApiType.joined_congr fun t => ?_
    simp only [types_eq_map, List.mem_map, h]
  · have hnested : (union (before ++ .union inner :: after)).type s
        = .joined (.joined (types s inner) :: types s (before ++ after)) := by
      refine ApiType.joined_congr fun t => ?_
      simp only [types_eq_map, List.map_append, List.map_cons, List.mem_append, List.mem_cons, type]
      exact or_left_comm
    have hflat : (union (before ++ inner ++ after)).type s
        = .joined (types s inner ++ types s (before ++ after)) := by
      refine ApiType.joined_congr fun t => ?_
      simp only [types_eq_map, List.map_append, List.mem_append, or_assoc]
      exact or_left_comm
    rw [hnested, hflat, ApiType.joined_cons_joined_eq_iff (sound_types s _) (sound_types s _)]

namespace Sample

def scope : TypeScope := ⟨{}, "m"⟩

def intType : Annotation := .inst "builtins.int" []

def letter (c : String) : Annotation := .literal (.str c)

/-- An optional number beside a literal, in one union or two and in another order. -/
theorem optional_number_dissolves :
    (union [.union [intType, .none], letter "a"]).type scope
        = (union [intType, .none, letter "a"]).type scope
      ∧ (union [letter "a", .none, intType, .none]).type scope
        = (union [intType, .none, letter "a"]).type scope := by
  obtain ⟨hreordered, hflat⟩ := union_type_kept_iff scope
  constructor
  · refine (hflat [] [intType, .none] [letter "a"]).2 ⟨fun hnil => ?_, fun _ hliterals => ?_⟩
    · cases hnil
    · cases hliterals _ List.mem_cons_self
  · refine hreordered _ _ fun a => ?_
    simp only [List.mem_cons, List.not_mem_nil, or_false]
    tauto

/-- Two literals in a union of their own do not come apart beside none, and a union of nothing does
not go away. -/
theorem inner_literals_stay_joined :
    (union [.union [letter "a", letter "b"], .none]).type scope
        ≠ (union [letter "a", letter "b", .none]).type scope
      ∧ (union [intType, .union []]).type scope
        ≠ (union [intType]).type scope := by
  decide

end Sample

end Annotation

end ApiSurface
