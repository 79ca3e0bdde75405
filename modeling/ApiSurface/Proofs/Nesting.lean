import ApiSurface.Proofs.EntityIds
/-!
# Kept members and where they stand

The members that a file keeps form a tree.  Two facts about it carry the later modules, whatever the
names in the file are.  Every class, function and enum in the tree stands in the scope that the
class around it opens, or in the module's own.  And no two of them share an id, nor has one the id
of the module, because each id is claimed before a second declaration could take it (`Claims`).

Hence every id in a file lies below the id of its module, and an id among them tells the member.
-/

namespace ApiSurface

/-! ## 1. Members at any depth -/

namespace Member

theorem withBelowIn_append (ms ms' : List Member) :
    withBelowIn (ms ++ ms') = withBelowIn ms ++ withBelowIn ms' := by
  induction ms with
  | nil => rfl
  | cons m ms ih => rw [List.cons_append, withBelowIn, withBelowIn, ih, List.append_assoc]

theorem mem_withBelowIn_self {m : Member} {ms : List Member} (h : m ∈ ms) :
    m ∈ withBelowIn ms := by
  induction ms with
  | nil => cases h
  | cons m' ms ih =>
    rw [withBelowIn, List.mem_append]
    rcases List.mem_cons.1 h with rfl | h
    · refine .inl ?_
      cases m <;> simp [withBelow]
    · exact .inr (ih h)

section InClass

variable {scope : Scope} {head : ClassHead} {members : List Member} {m : Member}

mutual
/-- What is in a class stands below whatever the class stands below. -/
theorem mem_withBelow_of_class (hm : m ∈ members) : (top : Member) →
    .class scope head members ∈ top.withBelow → m ∈ top.withBelow
  | .class _ _ ms, hc => by
    rw [withBelow, List.mem_append, List.mem_singleton] at hc
    rw [withBelow, List.mem_append]
    rcases hc with hc | hc
    · exact .inl (mem_withBelowIn_of_class hm ms hc)
    · cases hc
      exact .inl (mem_withBelowIn_self hm)
  | .enum .., hc => by cases List.mem_singleton.1 hc
  | .function .., hc => by cases List.mem_singleton.1 hc
  | .assignment _, hc => by cases List.mem_singleton.1 hc

theorem mem_withBelowIn_of_class (hm : m ∈ members) : (ms : List Member) →
    .class scope head members ∈ withBelowIn ms → m ∈ withBelowIn ms
  | [], hc => by cases hc
  | top :: ms, hc => by
    rw [withBelowIn, List.mem_append] at hc ⊢
    exact hc.imp (mem_withBelow_of_class hm top) (mem_withBelowIn_of_class hm ms)
end

/-- That a member belongs directly to a class among some members. -/
def InClass (ms : List Member) (m : Member) : Prop :=
  ∃ scope head members, .class scope head members ∈ ms ∧ m ∈ members

theorem InClass.mono {ms ms' : List Member} (h : InClass ms m) (hsub : ∀ c ∈ ms, c ∈ ms') :
    InClass ms' m := by
  obtain ⟨scope, head, members, hc, hm⟩ := h
  exact ⟨scope, head, members, hsub _ hc, hm⟩

mutual
theorem eq_or_inClass : (top : Member) → m ∈ top.withBelow → m = top ∨ InClass top.withBelow m
  | .class scope head ms, hm => by
    rw [withBelow, List.mem_append, List.mem_singleton] at hm
    rcases hm with hm | hm
    · refine .inr ?_
      rcases mem_or_inClass ms hm with hm | hm
      · exact ⟨scope, head, ms, by simp [withBelow], hm⟩
      · exact hm.mono fun c hc => by simp [withBelow, hc]
    · exact .inl hm
  | .enum .., hm => .inl (List.mem_singleton.1 hm)
  | .function .., hm => .inl (List.mem_singleton.1 hm)
  | .assignment _, hm => .inl (List.mem_singleton.1 hm)

/-- A member at any depth belongs to the scope itself or to a class below it. -/
theorem mem_or_inClass : (ms : List Member) → m ∈ withBelowIn ms →
    m ∈ ms ∨ InClass (withBelowIn ms) m
  | [], hm => by cases hm
  | top :: ms, hm => by
    rw [withBelowIn, List.mem_append] at hm
    rcases hm with hm | hm
    · rcases eq_or_inClass top hm with rfl | hm
      · exact .inl List.mem_cons_self
      · exact .inr (hm.mono fun c hc => by simp [withBelowIn, hc])
    · rcases mem_or_inClass ms hm with hm | hm
      · exact .inl (List.mem_cons_of_mem top hm)
      · exact .inr (hm.mono fun c hc => by simp [withBelowIn, hc])
end

end InClass

section Induction

variable {P : Member → Prop}

mutual
theorem forall_withBelow : (top : Member) → P top →
    (∀ scope head members, .class scope head members ∈ top.withBelow →
      P (.class scope head members) → ∀ m ∈ members, P m) →
    ∀ m ∈ top.withBelow, P m
  | .class scope head ms, htop, hnested, m, hm => by
    have hself : .class scope head ms ∈ (Member.class scope head ms).withBelow := by
      simp [withBelow]
    rw [withBelow, List.mem_append, List.mem_singleton] at hm
    rcases hm with hm | rfl
    · refine forall_withBelowIn ms (hnested scope head ms hself htop) ?_ m hm
      intro scope' head' members hc
      exact hnested scope' head' members (by rw [withBelow]; exact List.mem_append_left _ hc)
    · exact htop
  | .enum .., htop, _, m, hm => by rw [List.mem_singleton.1 hm]; exact htop
  | .function .., htop, _, m, hm => by rw [List.mem_singleton.1 hm]; exact htop
  | .assignment _, htop, _, m, hm => by rw [List.mem_singleton.1 hm]; exact htop

/-- What holds of the members of a scope, and in each class of the members if it holds of the class,
holds at any depth. -/
theorem forall_withBelowIn : (ms : List Member) → (∀ m ∈ ms, P m) →
    (∀ scope head members, .class scope head members ∈ withBelowIn ms →
      P (.class scope head members) → ∀ m ∈ members, P m) →
    ∀ m ∈ withBelowIn ms, P m
  | [], _, _, m, hm => by cases hm
  | top :: ms, htop, hnested, m, hm => by
    rw [withBelowIn, List.mem_append] at hm
    rcases hm with hm | hm
    · refine forall_withBelow top (htop top List.mem_cons_self) ?_ m hm
      intro scope head members hc
      exact hnested scope head members (by rw [withBelowIn]; exact List.mem_append_left _ hc)
    · refine forall_withBelowIn ms (fun m hm => htop m (List.mem_cons_of_mem top hm)) ?_ m hm
      intro scope head members hc
      exact hnested scope head members (by rw [withBelowIn]; exact List.mem_append_right _ hc)
end

end Induction

/-- The ids of the labels of members and of those below them. -/
def labelIds (ms : List Member) : List String :=
  (withBelowIn ms).filterMap fun m => m.label?.map Label.id

theorem labelIds_append (ms ms' : List Member) :
    labelIds (ms ++ ms') = labelIds ms ++ labelIds ms' := by
  rw [labelIds, withBelowIn_append, List.filterMap_append]
  rfl

theorem mem_labelIds {ms : List Member} {m : Member} {l : Label} (hm : m ∈ withBelowIn ms)
    (hl : m.label? = some l) : l.id ∈ labelIds ms :=
  List.mem_filterMap.2 ⟨m, hm, by rw [hl]; rfl⟩

/-- Where no two labels share an id, the id tells the member. -/
theorem eq_of_label_id {ms : List Member} (h : (labelIds ms).Nodup) {m m' : Member} {l l' : Label}
    (hm : m ∈ withBelowIn ms) (hm' : m' ∈ withBelowIn ms) (hl : m.label? = some l)
    (hl' : m'.label? = some l') (hid : l.id = l'.id) : m = m' := by
  by_contra hne
  let R : Member → Member → Prop := fun a b =>
    ∀ x, a.label?.map Label.id = some x → ∀ y, b.label?.map Label.id = some y → x ≠ y
  have hpairs : (withBelowIn ms).Pairwise R := List.pairwise_filterMap.1 h
  have hsymm : Std.Symm R := ⟨fun a b hab x hx y hy => (hab y hy x hx).symm⟩
  refine hpairs.forall hm hm' hne l.id ?_ l'.id ?_ hid
  · rw [hl]
    rfl
  · rw [hl']
    rfl

/-- The scope in which a class, function or enum stands. -/
def scope? : Member → Option Scope
  | .class scope _ _ => some scope
  | .enum scope _ _ => some scope
  | .function scope _ _ => some scope
  | .assignment _ => none

theorem scope?_of_label? {m : Member} {l : Label} (hl : m.label? = some l) :
    ∃ scope, m.scope? = some scope ∧ scope.id = l.owner := by
  cases m with
  | «class» scope | enum scope | function scope =>
    cases hl
    exact ⟨scope, rfl, rfl⟩
  | assignment a => cases hl

/-! ## 2. Claimed ids -/

/-- What holds of the members that a scope keeps, given the ids claimed before and after. -/
structure Claims (ctx : ModuleContext) (scope : Scope) (claimed : List String)
    (ms : List Member) (after : List String) : Prop where
  mem_after : ∀ id, id ∈ after ↔ id ∈ claimed ∨ id ∈ labelIds ms
  fresh : ∀ id ∈ labelIds ms, id ∉ claimed
  nodup : (labelIds ms).Nodup
  direct : ∀ m ∈ ms, ∀ s, m.scope? = some s → s = scope
  nested : ∀ s head members, .class s head members ∈ withBelowIn ms →
    ∀ m ∈ members, ∀ s', m.scope? = some s' → s' = ctx.classScope s head

namespace Claims

variable {ctx : ModuleContext} {scope : Scope} {claimed between after : List String}
  {ms ms' : List Member}

theorem nil : Claims ctx scope claimed [] claimed where
  mem_after id := by simp [labelIds, withBelowIn]
  fresh := by simp [labelIds, withBelowIn]
  nodup := by simp [labelIds, withBelowIn]
  direct := by simp
  nested := by simp [withBelowIn]

theorem append (h : Claims ctx scope claimed ms between) (h' : Claims ctx scope between ms' after) :
    Claims ctx scope claimed (ms ++ ms') after where
  mem_after id := by rw [h'.mem_after, h.mem_after, labelIds_append, List.mem_append, or_assoc]
  fresh id hid hclaimed := by
    rw [labelIds_append, List.mem_append] at hid
    rcases hid with hid | hid
    · exact h.fresh id hid hclaimed
    · exact h'.fresh id hid ((h.mem_after id).2 (.inl hclaimed))
  nodup := by
    rw [labelIds_append]
    refine List.nodup_append.2 ⟨h.nodup, h'.nodup, ?_⟩
    rintro id hid id' hid' rfl
    exact h'.fresh id hid' ((h.mem_after id).2 (.inr hid))
  direct m hm := (List.mem_append.1 hm).elim (h.direct m) (h'.direct m)
  nested s head members hc := by
    rw [withBelowIn_append, List.mem_append] at hc
    exact hc.elim (h.nested s head members) (h'.nested s head members)

theorem assignment (a : Assignment) : Claims ctx scope claimed [.assignment a] claimed where
  mem_after id := by simp [labelIds, withBelowIn, withBelow, label?]
  fresh := by simp [labelIds, withBelowIn, withBelow, label?]
  nodup := by simp [labelIds, withBelowIn, withBelow, label?]
  direct := by simp [scope?]
  nested := by simp [withBelowIn, withBelow]

/-- A member with none below it. -/
theorem leaf {m : Member} {l : Label} (hm : m.withBelow = [m])
    (hc : ∀ s head members, m ≠ .class s head members) (hl : m.label? = some l)
    (hscope : m.scope? = some scope) (hfresh : l.id ∉ claimed) :
    Claims ctx scope claimed [m] (l.id :: claimed) := by
  have hall : withBelowIn [m] = [m] := by rw [withBelowIn, hm]; rfl
  have hids : labelIds [m] = [l.id] := by simp [labelIds, hall, hl]
  constructor
  · intro id
    rw [hids, List.mem_cons, List.mem_singleton, or_comm]
  · rw [hids]
    simpa using hfresh
  · rw [hids]
    simp
  · intro m' hm' s hs
    rw [List.mem_singleton.1 hm', hscope] at hs
    exact (Option.some.inj hs).symm
  · intro s head members hmem
    rw [hall] at hmem
    exact absurd (List.mem_singleton.1 hmem).symm (hc s head members)

/-- A class with its members. -/
theorem «class» {head : ClassHead} (hfresh : Id.child scope.id head.name ∉ claimed)
    (h : Claims ctx (ctx.classScope scope head) (Id.child scope.id head.name :: claimed) ms after) :
    Claims ctx scope claimed [.class scope head ms] after := by
  have hall : withBelowIn [.class scope head ms] = withBelowIn ms ++ [.class scope head ms] := by
    simp [withBelowIn, withBelow]
  have hids : labelIds [.class scope head ms] = labelIds ms ++ [Id.child scope.id head.name] := by
    rw [labelIds, hall, List.filterMap_append]
    rfl
  constructor
  · intro id
    rw [h.mem_after, hids, List.mem_append, List.mem_singleton, List.mem_cons]
    rw [or_assoc, or_left_comm, or_comm (a := id = _)]
  · intro id hid hclaimed
    rw [hids, List.mem_append, List.mem_singleton] at hid
    rcases hid with hid | rfl
    · exact h.fresh id hid (List.mem_cons_of_mem _ hclaimed)
    · exact hfresh hclaimed
  · rw [hids]
    refine List.nodup_append.2 ⟨h.nodup, by simp, ?_⟩
    rintro id hid id' hid' rfl
    rw [List.mem_singleton.1 hid'] at hid
    exact h.fresh _ hid List.mem_cons_self
  · intro m hm s hs
    rw [List.mem_singleton.1 hm] at hs
    cases hs
    rfl
  · intro s head' members hc
    rw [hall, List.mem_append, List.mem_singleton] at hc
    rcases hc with hc | hc
    · exact h.nested s head' members hc
    · cases hc
      exact h.direct

end Claims

end Member

namespace ModuleContext

open Member (Claims)

mutual
theorem claims_keep (ctx : ModuleContext) (scope : Scope) : (d : Declaration) →
    (claimed : List String) →
    Claims ctx scope claimed (ctx.keep scope d claimed).1 (ctx.keep scope d claimed).2
  | .class head body, claimed => by
    rw [keep]
    split
    · exact .nil
    · rename_i hclaimed
      have hfresh : Id.child scope.id head.name ∉ claimed := by simpa using hclaimed
      split
      · exact .leaf (l := ⟨.enum, scope.id, head.name⟩) rfl (by simp) rfl rfl hfresh
      · exact .class hfresh (claims_keepAll ctx (ctx.classScope scope head) body _)
  | .function head body, claimed => by
    rw [keep]
    split
    · exact .nil
    · rename_i hclaimed
      have hfresh : Id.child scope.id head.name ∉ claimed := by simpa using hclaimed
      exact .leaf (l := ⟨.function, scope.id, head.name⟩) rfl (by simp) rfl rfl hfresh
  | .assignment a, claimed => by
    rw [keep]
    exact .assignment a

theorem claims_keepAll (ctx : ModuleContext) (scope : Scope) : (ds : List Declaration) →
    (claimed : List String) →
    Claims ctx scope claimed (ctx.keepAll scope ds claimed).1 (ctx.keepAll scope ds claimed).2
  | [], claimed => .nil
  | d :: more, claimed => by
    rw [keepAll]
    exact .append (claims_keep ctx scope d claimed) (claims_keepAll ctx scope more _)
end

end ModuleContext

/-! ## 3. Files -/

namespace Id

theorem child_child (p n k : String) : child (child p n) k = child p (child n k) := by
  refine String.toList_inj.1 ?_
  simp [child_toList]

end Id

/-- Labels lie below an owner if the members of the scope are its own and those of each class are
the class's own. -/
theorem Member.below_of_owners {ms : List Member} {owner : String}
    (direct : ∀ m ∈ ms, ∀ l, m.label? = some l → l.owner = owner)
    (nested : ∀ scope head members, .class scope head members ∈ withBelowIn ms →
      ∀ m ∈ members, ∀ l, m.label? = some l → l.owner = Id.child scope.id head.name) :
    ∀ m ∈ withBelowIn ms, ∀ l, m.label? = some l → ∃ r, l.id = Id.child owner r := by
  refine forall_withBelowIn ms ?_ ?_
  · intro m hm l hl
    exact ⟨l.name, by rw [Label.id, direct m hm l hl]⟩
  · intro scope head members hc hbelow m hm l hl
    obtain ⟨r, hr⟩ := hbelow ⟨.class, scope.id, head.name⟩ rfl
    refine ⟨Id.child r l.name, ?_⟩
    rw [Label.id, nested scope head members hc m hm l hl, ← Id.child_child, ← hr]
    rfl

namespace Member.Claims

variable {ctx : ModuleContext} {scope : Scope} {claimed after : List String} {ms : List Member}
  {m : Member} {l : Label}

theorem owner_eq (h : Claims ctx scope claimed ms after) (hm : m ∈ ms) (hl : m.label? = some l) :
    l.owner = scope.id := by
  obtain ⟨s, hs, howner⟩ := scope?_of_label? hl
  rw [← howner, h.direct m hm s hs]

theorem owner_eq_of_class (h : Claims ctx scope claimed ms after) {s : Scope} {head : ClassHead}
    {members : List Member} (hc : .class s head members ∈ withBelowIn ms) (hm : m ∈ members)
    (hl : m.label? = some l) : l.owner = Id.child s.id head.name := by
  obtain ⟨s', hs', howner⟩ := scope?_of_label? hl
  rw [← howner, h.nested s head members hc m hm s' hs']
  rfl

/-- Every label lies below the scope. -/
theorem below (h : Claims ctx scope claimed ms after) :
    ∀ m ∈ withBelowIn ms, ∀ l, m.label? = some l → ∃ r, l.id = Id.child scope.id r :=
  below_of_owners (fun _ hm _ hl => h.owner_eq hm hl)
    fun _ _ _ hc _ hm _ hl => h.owner_eq_of_class hc hm hl

end Member.Claims

theorem SourceFile.claims_members (f : SourceFile) (ctx : ModuleContext) :
    Member.Claims ctx f.scope [Id.ofPath f.path] (f.members ctx) (f.kept ctx).2 :=
  ctx.claims_keepAll f.scope _ _

end ApiSurface
