import ApiSurface.Proofs.UnionLaws
/-!
# Types narrowed to a range

A description may give a range for a number, as `between 1 and 5` does, and then the declared type
is narrowed to it.  What is narrowed is an alternative of the type: the type itself if it is no
union, and otherwise one of the members.  So both cases are one, the replacement of a member
(`Range.narrow?_eq`).

Only the first numeric alternative is replaced.  All that are not numeric stay, and the result is
canonical whatever has to be sorted or merged.  But a type with two numeric alternatives keeps the
second as it was, and admits by it every number that the range was to exclude
(`narrowed_alternatives_iff`).
-/

namespace ApiSurface.Constraint

variable {r : Range} {t u : ApiType} {types narrowed : List ApiType} {description : List Char}

/-! ## 1. The replaced member -/

/-- The numeric alternatives of a type. -/
def numerics (t : ApiType) : List ApiType := t.unionMembers.filter fun m => (numericBase? m).isSome

theorem numerics_eq_nil_iff : numerics t = [] ↔ ∀ m ∈ t.unionMembers, numericBase? m = none := by
  simp [numerics, List.filter_eq_nil_iff]

/-- That a list has a first numeric type at a place, with a given base. -/
structure FirstNumeric (types before : List ApiType) (first : ApiType) (after : List ApiType)
    (base : BoundaryBase) : Prop where
  split : types = before ++ first :: after
  others : ∀ m ∈ before, numericBase? m = none
  numeric : numericBase? first = some base

namespace FirstNumeric

variable {before after : List ApiType} {first : ApiType} {base : BoundaryBase}

theorem cons (h : FirstNumeric types before first after base) (ht : numericBase? t = none) :
    FirstNumeric (t :: types) (t :: before) first after base :=
  ⟨by rw [h.split, List.cons_append], List.forall_mem_cons.2 ⟨ht, h.others⟩, h.numeric⟩

theorem filter_eq (h : FirstNumeric types before first after base) :
    types.filter (fun m => (numericBase? m).isSome)
      = first :: after.filter fun m => (numericBase? m).isSome := by
  have hbefore : before.filter (fun m => (numericBase? m).isSome) = [] := by
    rw [List.filter_eq_nil_iff]
    intro m hm
    simp [h.others m hm]
  rw [h.split, List.filter_append, hbefore, List.nil_append,
    List.filter_cons_of_pos (by simp [h.numeric])]

end FirstNumeric

theorem Range.narrowFirst_eq_none_iff :
    r.narrowFirst types = none ↔ ∀ m ∈ types, numericBase? m = none := by
  induction types with
  | nil => simp [narrowFirst]
  | cons t types ih =>
    rw [narrowFirst, List.forall_mem_cons]
    cases hbase : numericBase? t with
    | none => simp [ih]
    | some base => simp

theorem Range.exists_of_narrowFirst_eq_some (h : r.narrowFirst types = some narrowed) :
    ∃ before first after base, FirstNumeric types before first after base
      ∧ narrowed = before ++ r.boundary base :: after := by
  induction types generalizing narrowed with
  | nil => cases h
  | cons t types ih =>
    rw [narrowFirst] at h
    cases hbase : numericBase? t with
    | none =>
      simp only [hbase] at h
      obtain ⟨rest, hrest, rfl⟩ := Option.map_eq_some_iff.1 h
      obtain ⟨before, first, after, base, hfirst, rfl⟩ := ih hrest
      exact ⟨t :: before, first, after, base, hfirst.cons hbase, rfl⟩
    | some base =>
      simp only [hbase, Option.some.injEq] at h
      exact ⟨[], t, types, base, ⟨rfl, fun m hm => absurd hm List.not_mem_nil, hbase⟩, h.symm⟩

/-- A type that is no union is narrowed as the only member of one. -/
theorem Range.narrow?_eq (r : Range) (t : ApiType) :
    r.narrow? t = (r.narrowFirst t.unionMembers).map .unionOf := by
  unfold narrow?
  cases t with
  | union types => rfl
  | unknown | named | namedSequence | enum | boundary | list | set | tuple | dict | callable
  | literal | final | typeVar =>
    simp only [ApiType.unionMembers, narrowFirst]
    cases numericBase? _ <;> rfl

/-- Where a range is found, a type is narrowed unless it has no numeric alternative. -/
theorem narrow?_eq_none_iff :
    narrow? t description = none ↔ range? description = none ∨ numerics t = [] := by
  unfold narrow?
  cases hrange : range? description with
  | none => simp
  | some r =>
    rw [numerics_eq_nil_iff, ← r.narrowFirst_eq_none_iff]
    simp [r.narrow?_eq]

/-! ## 2. The alternatives that are left -/

section Narrowed

variable (ht : t.Canonical) {before after : List ApiType} {first : ApiType} {base : BoundaryBase}
  (h : FirstNumeric t.unionMembers before first after base)

include ht

omit h in
theorem nodup_unionMembers : t.unionMembers.Nodup := by
  cases t with
  | union types =>
    obtain ⟨-, hascending, -⟩ := ht _ (.whole _)
    exact Ascending.nodup (⟨types, hascending⟩ : TypeSet)
  | unknown | named | namedSequence | enum | boundary | list | set | tuple | dict | callable
  | literal | final | typeVar => exact List.nodup_singleton _

include h

/-- No alternative is lost when the members are put in order, and none is dissolved. -/
theorem mem_unionMembers_narrowed {m : ApiType} :
    m ∈ (ApiType.unionOf (before ++ r.boundary base :: after)).unionMembers
      ↔ m ∈ before ++ r.boundary base :: after := by
  have hmembers : ∀ m ∈ before ++ r.boundary base :: after,
      ApiType.Sound true m ∧ m.isUnion = false := by
    intro m hm
    rw [List.mem_append, List.mem_cons] at hm
    have hmember : m ∈ t.unionMembers → ApiType.Sound true m ∧ m.isUnion = false :=
      ApiType.sound_of_unionMembers ht.sound
    rcases hm with hm | rfl | hm
    · exact hmember (by rw [h.split]; exact List.mem_append_left _ hm)
    · exact ⟨ApiType.sound_boundary _, rfl⟩
    · exact hmember (by rw [h.split]; exact List.mem_append_right _ (List.mem_cons_of_mem _ hm))
  rw [ApiType.mem_unionMembers_unionOf (fun m hm => (hmembers m hm).1) (by simp),
    ApiType.flatMap_unionMembers_of_flat fun m hm => (hmembers m hm).2]

theorem mem_unionMembers_narrowed_iff {m : ApiType} :
    m ∈ (ApiType.unionOf (before ++ r.boundary base :: after)).unionMembers
      ↔ m = r.boundary base ∨ m ∈ t.unionMembers ∧ m ≠ first := by
  have hnodup := nodup_unionMembers ht
  rw [h.split, List.nodup_middle, List.nodup_cons] at hnodup
  have hother : m ∈ before ++ after → m ≠ first := by
    rintro hm rfl
    exact hnodup.1 hm
  rw [mem_unionMembers_narrowed ht h, h.split]
  simp only [List.mem_append, List.mem_cons] at hother ⊢
  tauto

/-- Nothing numeric is left exactly if there was nothing numeric behind the replaced member. -/
theorem numerics_narrowed_eq_nil_iff :
    numerics (ApiType.unionOf (before ++ r.boundary base :: after)) = []
      ↔ (numerics t).length = 1 := by
  have hafter : (∀ m ∈ after, numericBase? m = none)
      ↔ after.filter (fun m => (numericBase? m).isSome) = [] := by
    simp [List.filter_eq_nil_iff]
  calc numerics (ApiType.unionOf (before ++ r.boundary base :: after)) = []
      ↔ ∀ m ∈ before ++ r.boundary base :: after, numericBase? m = none := by
        simp only [numerics_eq_nil_iff, mem_unionMembers_narrowed ht h]
    _ ↔ ∀ m ∈ after, numericBase? m = none := by
        rw [List.forall_mem_append, List.forall_mem_cons]
        exact ⟨fun hall => hall.2.2, fun hall => ⟨h.others, rfl, hall⟩⟩
    _ ↔ (numerics t).length = 1 := by
        rw [hafter, numerics, h.filter_eq, List.length_cons, Nat.add_eq_right,
          List.length_eq_zero_iff]

end Narrowed

/-- **A range narrows the first numeric alternative of a type.**  A canonical type is narrowed
exactly if the description names a range and one of the alternatives of the type is numeric.  What
it is narrowed to is canonical again.  It has the range in the place of the first numeric
alternative, and all other alternatives with it, so that none that is not numeric is lost.  No plain
number is left among them exactly if the type had no second numeric alternative. -/
theorem narrowed_alternatives_iff (ht : t.Canonical) (description : List Char) :
    (narrow? t description = none ↔ range? description = none ∨ numerics t = [])
      ∧ ∀ u, narrow? t description = some u →
        u.Canonical
          ∧ (∀ m ∈ t.unionMembers, numericBase? m = none → m ∈ u.unionMembers)
          ∧ (∃ r first base, range? description = some r ∧ (numerics t).head? = some first
            ∧ numericBase? first = some base
            ∧ ∀ m, m ∈ u.unionMembers ↔ m = r.boundary base ∨ m ∈ t.unionMembers ∧ m ≠ first)
          ∧ (numerics u = [] ↔ (numerics t).length = 1) := by
  refine ⟨narrow?_eq_none_iff, ?_⟩
  intro u hu
  have hcanonical : u.Canonical := (sound_narrow? ht.sound u hu).canonical
  obtain ⟨r, hrange, hnarrow⟩ := Option.bind_eq_some_iff.1 hu
  rw [r.narrow?_eq] at hnarrow
  obtain ⟨narrowed, hnarrowed, rfl⟩ := Option.map_eq_some_iff.1 hnarrow
  obtain ⟨before, first, after, base, hfirst, rfl⟩ := Range.exists_of_narrowFirst_eq_some hnarrowed
  have hmembers : ∀ m, m ∈ (ApiType.unionOf (before ++ r.boundary base :: after)).unionMembers
      ↔ m = r.boundary base ∨ m ∈ t.unionMembers ∧ m ≠ first :=
    fun m => mem_unionMembers_narrowed_iff ht hfirst
  refine ⟨hcanonical, ?_, ⟨r, first, base, hrange, ?_, hfirst.numeric, hmembers⟩,
    numerics_narrowed_eq_nil_iff ht hfirst⟩
  · intro m hm hbase
    refine (hmembers m).2 (.inr ⟨hm, ?_⟩)
    rintro rfl
    rw [hfirst.numeric] at hbase
    cases hbase
  · rw [numerics, hfirst.filter_eq, List.head?_cons]

namespace Sample

def oneToFive : Range where
  min := some ⟨0x3ff0000000000000⟩
  minInclusive := true
  max := some ⟨0x4014000000000000⟩
  maxInclusive := true

/-- A number that may be left out. -/
def optionalRatio : ApiType := .union [ApiType.none, .builtin "float"]

/-- A number of either kind. -/
def ratioOrCount : ApiType := .union [.builtin "float", .builtin "int"]

theorem canonical_unionOf_pair (name qname name' qname' : String) :
    (ApiType.unionOf [.named name qname, .named name' qname']).Canonical := by
  have hsound : ApiType.Sound false (.unionOf [.named name qname, .named name' qname']) := by
    refine ApiType.sound_unionOf ?_
    simp only [List.forall_mem_cons]
    exact ⟨ApiType.sound_named _ _, ApiType.sound_named _ _, fun t ht => absurd ht List.not_mem_nil⟩
  exact hsound.canonical

theorem canonical_optionalRatio : optionalRatio.Canonical :=
  canonical_unionOf_pair "None" "builtins.None" "float" "builtins.float"

theorem canonical_ratioOrCount : ratioOrCount.Canonical :=
  canonical_unionOf_pair "float" "builtins.float" "int" "builtins.int"

theorem optional_ratio_narrowed :
    narrow? optionalRatio "between 1 and 5".toList
        = some (.union [ApiType.none, oneToFive.boundary .float])
      ∧ numerics (.union [ApiType.none, oneToFive.boundary .float]) = [] := by
  have hnarrow : narrow? optionalRatio "between 1 and 5".toList
      = some (.union [ApiType.none, oneToFive.boundary .float]) := by decide +kernel
  obtain ⟨-, hsome⟩ := narrowed_alternatives_iff canonical_optionalRatio "between 1 and 5".toList
  obtain ⟨-, -, -, hleft⟩ := hsome _ hnarrow
  exact ⟨hnarrow, hleft.2 (by decide +kernel)⟩

/-- Of two kinds of numbers only the first is narrowed, and the other is left as it was. -/
theorem second_number_left_plain :
    ratioOrCount.Canonical
      ∧ narrow? ratioOrCount "between 1 and 5".toList
        = some (.union [.builtin "int", oneToFive.boundary .float])
      ∧ numericBase? (.builtin "int") = some .int :=
  ⟨canonical_ratioOrCount, by decide +kernel, by decide +kernel⟩

end Sample

end ApiSurface.Constraint
