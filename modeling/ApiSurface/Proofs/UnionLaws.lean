import ApiSurface.Proofs.UnionTypes
/-!
# Laws of unions

On canonical types the union is associative, commutative and idempotent.  All three come down to the
members: a union of canonical types has exactly the members of the types, and is determined by them.
A union of nothing is the exception, since `unknown` brings a member of its own.  So groups may be
joined one by one before they are joined together as long as none of them is empty, and an optional
type is put together again from what it is without none unless that is nothing.
-/

namespace ApiSurface.ApiType

variable {t : ApiType} {types types' : List ApiType}

/-! ## 1. Members -/

/-- What types bring into a union, as a set. -/
def memberSet (types : List ApiType) : Finset ApiType := (types.flatMap unionMembers).toFinset

theorem mem_memberSet : t ∈ memberSet types ↔ t ∈ types.flatMap unionMembers := List.mem_toFinset

theorem Canonical.sound (h : t.Canonical) : Sound true t := fun u hu => ⟨h u hu, fun _ => rfl⟩

/-- Types none of which is a union are their own members. -/
theorem flatMap_unionMembers_of_flat (h : ∀ t ∈ types, t.isUnion = false) :
    types.flatMap unionMembers = types := by
  calc types.flatMap unionMembers = types.flatMap fun t => [t] :=
        List.flatMap_congr fun t ht => unionMembers_of_isUnion_eq_false (h t ht)
    _ = types := by simp

/-- Unions of canonical types are the same exactly if they have the same members. -/
theorem unionOf_eq_iff_memberSet (h : ∀ t ∈ types, t.Canonical) (hne : types ≠ [])
    (h' : ∀ t ∈ types', t.Canonical) (hne' : types' ≠ []) :
    unionOf types = unionOf types' ↔ memberSet types = memberSet types' := by
  rw [unionOf_eq_iff (fun t ht => (h t ht).sound) hne (fun t ht => (h' t ht).sound) hne',
    Finset.ext_iff]
  simp only [mem_memberSet]

/-! ## 2. Groups -/

/-- Groups of canonical types, none of them empty, may each be joined first. -/
theorem unionOf_map_unionOf {groups : List (List ApiType)}
    (h : ∀ group ∈ groups, group ≠ [] ∧ ∀ t ∈ group, t.Canonical) :
    unionOf (groups.map unionOf) = unionOf groups.flatten := by
  refine unionOf_congr_members fun u => ?_
  have hgroup : ∀ group ∈ groups,
      (u ∈ (unionOf group).unionMembers ↔ u ∈ group.flatMap unionMembers) := by
    intro group hgroup
    obtain ⟨hne, hcanonical⟩ := h group hgroup
    exact mem_unionMembers_unionOf (fun t ht => (hcanonical t ht).sound) hne
  calc u ∈ (groups.map unionOf).flatMap unionMembers
      ↔ ∃ group ∈ groups, u ∈ (unionOf group).unionMembers := by
        rw [List.flatMap_map, List.mem_flatMap]
    _ ↔ ∃ group ∈ groups, u ∈ group.flatMap unionMembers :=
        exists_congr fun group => and_congr_right (hgroup group)
    _ ↔ u ∈ groups.flatten.flatMap unionMembers := by
        simp only [List.mem_flatMap, List.mem_flatten]
        tauto

/-- Copies of a canonical type are joined to the type itself. -/
theorem unionOf_replicate (h : t.Canonical) (n : Nat) : unionOf (List.replicate (n + 1) t) = t :=
  calc unionOf (List.replicate (n + 1) t) = unionOf [t] := unionOf_congr fun u => by simp
    _ = t := unionOf_singleton (h t (.whole t))

/-! ## 3. Optional types -/

section Optional

variable (h : (union types).Canonical)
include h

theorem Canonical.sound_of_mem {u : ApiType} (hu : u ∈ types) : Sound true u :=
  (sound_iff.1 h.sound).2 u hu

/-- The members of a canonical union, sorted out by some property, bring themselves into a union. -/
theorem Canonical.flatMap_filter (p : ApiType → Bool) :
    (types.filter p).flatMap unionMembers = types.filter p := by
  obtain ⟨-, -, hflat⟩ := h _ (.whole _)
  exact flatMap_unionMembers_of_flat fun t ht => hflat t (List.mem_of_mem_filter ht)

/-- A canonical union is put together again from the union of its other members and those that are
none exactly if there are others. -/
theorem Canonical.unionOf_others_nones_eq_iff :
    unionOf (unionOf (types.filter fun t => !t.isNone) :: types.filter isNone) = union types
      ↔ ∃ t ∈ types, t.isNone = false := by
  have hothers : ∀ t ∈ types.filter fun t => !t.isNone, Sound true t :=
    fun t ht => h.sound_of_mem (List.mem_of_mem_filter ht)
  have hnones : ∀ t ∈ types.filter isNone, Sound true t :=
    fun t ht => h.sound_of_mem (List.mem_of_mem_filter ht)
  by_cases hempty : types.filter (fun t => !t.isNone) = []
  · refine iff_of_false (fun heq => ?_) fun ⟨t, ht, hother⟩ => ?_
    · -- without others their union is `unknown`, which then has to be a member
      have hmem : .unknown ∈ (unionOf (.unknown :: types.filter isNone)).unionMembers :=
        (mem_unionMembers_unionOf (List.forall_mem_cons.2 ⟨sound_unknown, hnones⟩) (by simp)).2
          (by simp [unionMembers])
      rw [hempty, show unionOf [] = .unknown from rfl] at heq
      rw [heq] at hmem
      exact List.filter_eq_nil_iff.1 hempty .unknown hmem rfl
    · exact List.filter_eq_nil_iff.1 hempty t ht (by rw [hother]; rfl)
  · obtain ⟨t, ht⟩ := List.exists_mem_of_ne_nil _ hempty
    refine iff_of_true ?_ ⟨t, List.mem_of_mem_filter ht, by simpa using (List.mem_filter.1 ht).2⟩
    refine Eq.trans (unionOf_congr_members fun u => ?_) (unionOf_singleton (h _ (.whole _)))
    rw [List.flatMap_cons, List.mem_append, mem_unionMembers_unionOf hothers hempty,
      h.flatMap_filter, h.flatMap_filter, List.flatMap_singleton, unionMembers, List.mem_filter,
      List.mem_filter]
    cases u.isNone <;> simp

end Optional

/-- **Unions of canonical types are associative, commutative and idempotent.**  Types may be joined
in groups first, none of them empty, and the groups then together; unions are the same exactly if
the sets of their members are, whatever the order and number in which these come; and any number of
copies of a type are the type.  The members of a union with a none among them are split into the
union of the others, and joined again with those that are none they are the union exactly if there
are others. -/
theorem union_laws :
    (∀ groups : List (List ApiType),
      (∀ group ∈ groups, group ≠ [] ∧ ∀ t ∈ group, t.Canonical) →
        unionOf (groups.map unionOf) = unionOf groups.flatten)
    ∧ (∀ types types' : List ApiType, types ≠ [] → types' ≠ [] →
      (∀ t ∈ types ++ types', t.Canonical) →
        (unionOf types = unionOf types' ↔ memberSet types = memberSet types'))
    ∧ (∀ t : ApiType, t.Canonical → ∀ n, unionOf (List.replicate (n + 1) t) = t)
    ∧ ∀ types : List ApiType, (union types).Canonical → (∃ t ∈ types, t.isNone = true) →
      ∃ other, splitOptional (union types) = some other
        ∧ other = unionOf (types.filter fun t => !t.isNone)
        ∧ (unionOf (other :: types.filter isNone) = union types
          ↔ ∃ t ∈ types, t.isNone = false) := by
  refine ⟨fun groups h => unionOf_map_unionOf h, fun types types' hne hne' h => ?_,
    fun t h n => unionOf_replicate h n, fun types h hnone => ?_⟩
  · rw [List.forall_mem_append] at h
    exact unionOf_eq_iff_memberSet h.1 hne h.2 hne'
  · refine ⟨_, ?_, rfl, h.unionOf_others_nones_eq_iff⟩
    rw [splitOptional, if_pos (List.any_eq_true.2 hnone)]

namespace Sample

/-- A number, or none under either of two names. -/
def optionalInt : ApiType := union [none, named "NoneType" noneName, builtin "int"]

theorem canonical_optionalInt : optionalInt.Canonical := by
  have hsound : Sound false (unionOf [none, named "NoneType" noneName, builtin "int"]) := by
    refine sound_unionOf fun t ht => ?_
    simp only [List.mem_cons, List.not_mem_nil, or_false] at ht
    rcases ht with rfl | rfl | rfl <;> exact sound_named _ _
  exact hsound.canonical

/-- An optional number joined with itself, with a text and with its own members, and taken apart. -/
theorem optional_int_laws :
    unionOf [unionOf [optionalInt, builtin "str"], unionOf [optionalInt]]
        = unionOf [optionalInt, builtin "str", optionalInt]
      ∧ unionOf [optionalInt, builtin "int"] = unionOf [none, optionalInt]
      ∧ unionOf [optionalInt, optionalInt] = optionalInt
      ∧ ∃ other, splitOptional optionalInt = some other
        ∧ unionOf [other, none, named "NoneType" noneName] = optionalInt := by
  obtain ⟨hgroups, hmembers, hcopies, hsplit⟩ := union_laws
  have hoptional := canonical_optionalInt
  have hnamed (name qname : String) : (named name qname).Canonical := by
    have hsound : Sound false (named name qname) := sound_named name qname
    exact hsound.canonical
  refine ⟨?_, ?_, hcopies _ hoptional 1, ?_⟩
  · refine hgroups [[optionalInt, builtin "str"], [optionalInt]] ?_
    simp [hoptional, hnamed, builtin]
  · refine (hmembers _ _ (by simp) (by simp) ?_).2 (by decide)
    simp [hoptional, hnamed, builtin, none]
  · obtain ⟨other, hother, -, hiff⟩ :=
      hsplit _ hoptional ⟨none, List.mem_cons_self, by decide⟩
    exact ⟨other, hother, hiff.2 ⟨builtin "int", by simp, by decide⟩⟩

end Sample

end ApiSurface.ApiType
