import ApiSurface.Proofs.Nesting
/-!
# Ids that meet

When does one id stand for two kinds of entities?  Classes, functions and enums claim their ids, so
they keep apart from each other.  Attributes, parameters, results and instances claim nothing: their
ids are built from the owner's id and a name.  In one file that leaves two ways to meet, an
attribute of a class with a member in it and a parameter of a function with a result of it.  Two
files can meet only if the id of one module is that of the other or lies below it.
-/

namespace ApiSurface

/-! ## 1. Names in the source -/

/-- The name that a part of a target binds, of a variable or of a member. -/
def Expression.targetName? : Expression → Option String
  | .name n .. => some n
  | .member _ n _ => some n
  | _ => none

def Assignment.names (a : Assignment) : List String :=
  (Expression.leavesIn a.targets).filterMap Expression.targetName?

namespace Declaration

mutual
/-- The names that a declaration introduces. -/
def names : Declaration → List String
  | .class head body => head.name :: namesIn body
  | .function head body =>
    head.name :: (head.arguments.map Argument.name
      ++ (bodyAssignments body).flatMap Assignment.names)
  | .assignment a => a.names

def namesIn : List Declaration → List String
  | [] => []
  | d :: more => d.names ++ namesIn more
end

end Declaration

/-- The names of a file's classes, functions, arguments and assigned variables and members. -/
def SourceFile.declaredNames (f : SourceFile) : List String :=
  Declaration.namesIn (Statement.declarationsIn f.body)

namespace Assignment

theorem names_of_plainNames {a : Assignment} {n : String} (h : n ∈ a.plainNames) :
    n ∈ a.names := by
  obtain ⟨e, he, hn⟩ := List.mem_filterMap.1 h
  refine List.mem_filterMap.2 ⟨e, he, ?_⟩
  cases e <;> cases hn
  rfl

theorem names_of_memberNames {a : Assignment} {receiver n : String}
    (h : n ∈ a.memberNames receiver) : n ∈ a.names := by
  obtain ⟨e, he, hn⟩ := List.mem_filterMap.1 h
  refine List.mem_filterMap.2 ⟨e, he, ?_⟩
  cases e with
  | member base n' type =>
    rw [Expression.memberName?_member] at hn
    split at hn
    · exact hn
    · cases hn
  | _ => cases hn

end Assignment

/-! ## 2. Kept members and their ids -/

namespace Member

/-- What holds of the members that a scope keeps, given the ids claimed before and after. -/
structure Kept (ctx : ModuleContext) (owner : String) (claimed : List String)
    (ms : List Member) (after : List String) : Prop where
  mem_after : ∀ id, id ∈ after ↔ id ∈ claimed ∨ id ∈ labelIds ms
  fresh : ∀ id ∈ labelIds ms, id ∉ claimed
  nodup : (labelIds ms).Nodup
  direct : ∀ m ∈ ms, ∀ l, m.label? = some l → l.owner = owner
  nested : ∀ scope head members, .class scope head members ∈ withBelowIn ms →
    ∀ m ∈ members, ∀ l, m.label? = some l → l.owner = Id.child scope.id head.name
  segment : ∀ m ∈ withBelowIn ms, ∀ l, m.label? = some l → Id.IsSegment l.name
  segments : ∀ m ∈ withBelowIn ms, ∀ kind name, (kind, name) ∈ m.parts ctx → kind ≠ .result →
    Id.IsSegment name
  names : ∀ m ∈ ms, ∀ n ∈ m.attributeNames, Id.IsSegment n

/-- Whether the names that a member brings are segments, those of results apart. -/
structure Segmented (ctx : ModuleContext) (m : Member) : Prop where
  label : ∀ l, m.label? = some l → Id.IsSegment l.name
  parts : ∀ kind name, (kind, name) ∈ m.parts ctx → kind ≠ .result → Id.IsSegment name
  names : ∀ n ∈ m.attributeNames, Id.IsSegment n

theorem Segmented.class {ctx : ModuleContext} {scope : Scope} {head : ClassHead}
    {ms : List Member} (hsegment : Id.IsSegment head.name)
    (h : ∀ m ∈ withBelowIn ms, Segmented ctx m) :
    ∀ m ∈ withBelowIn [.class scope head ms], Segmented ctx m := by
  have hall : withBelowIn [.class scope head ms] = withBelowIn ms ++ [.class scope head ms] := by
    simp [withBelowIn, withBelow]
  rw [hall, List.forall_mem_append]
  refine ⟨h, fun m hm => ?_⟩
  rw [List.mem_singleton.1 hm]
  constructor
  · intro l hl
    cases hl
    exact hsegment
  · intro kind name hpart _
    obtain ⟨n, hn, heq⟩ := List.mem_map.1 hpart
    cases heq
    obtain ⟨m, hm, hn⟩ := List.mem_flatMap.1 hn
    exact (h m (mem_withBelowIn_self hm)).names _ hn
  · intro n hn
    cases hn

end Member

namespace ModuleContext

open Member (Kept)

theorem attributeNames_of_function {scope : Scope} {head : FunctionHead} {body : List Statement}
    {n : String} (h : n ∈ (Member.function scope head body).attributeNames) :
    n ∈ (bodyAssignments body).flatMap Assignment.names := by
  rw [Member.attributeNames] at h
  split at h
  · split at h
    · obtain ⟨a, ha, hn⟩ := List.mem_flatMap.1 h
      exact List.mem_flatMap.2 ⟨a, ha, Assignment.names_of_memberNames hn⟩
    · cases h
  · cases h

theorem plainNames_of_assignmentsOf {ds : List Declaration} {n : String}
    (h : n ∈ (assignmentsOf ds).flatMap Assignment.plainNames) : n ∈ Declaration.namesIn ds := by
  induction ds with
  | nil => cases h
  | cons d ds ih =>
    rw [Declaration.namesIn, List.mem_append]
    cases d with
    | «class» | function => exact .inr (ih h)
    | assignment a =>
      have hsplit : n ∈ a.plainNames ∨ n ∈ (assignmentsOf ds).flatMap Assignment.plainNames := by
        simpa [assignmentsOf, Declaration.assignment?] using h
      exact hsplit.imp Assignment.names_of_plainNames ih

mutual
theorem segmented_keep (ctx : ModuleContext) (scope : Scope) : (d : Declaration) →
    (claimed : List String) → (∀ n ∈ d.names, Id.IsSegment n) →
    ∀ m ∈ Member.withBelowIn (ctx.keep scope d claimed).1, m.Segmented ctx
  | .class head body, claimed, h => by
    rw [Declaration.names, List.forall_mem_cons] at h
    rw [keep]
    split
    · intro m hm
      cases hm
    · split
      · intro m hm
        rw [List.mem_singleton.1 hm]
        refine ⟨fun l hl => ?_, fun kind name hpart _ => ?_, by simp [Member.attributeNames]⟩
        · cases hl
          exact h.1
        · obtain ⟨n, hn, heq⟩ := List.mem_map.1 hpart
          cases heq
          exact h.2 _ (plainNames_of_assignmentsOf hn)
      · exact .class h.1 (segmented_keepAll ctx (ctx.classScope scope head) body _ h.2)
  | .function head body, claimed, h => by
    rw [Declaration.names, List.forall_mem_cons, List.forall_mem_append] at h
    rw [keep]
    split
    · intro m hm
      cases hm
    · intro m hm
      rw [List.mem_singleton.1 hm]
      refine ⟨fun l hl => ?_, fun kind name hpart hkind => ?_, fun n hn => ?_⟩
      · cases hl
        exact h.1
      · rcases List.mem_append.1 hpart with hpart | hpart
        · obtain ⟨a, ha, heq⟩ := List.mem_map.1 hpart
          cases heq
          exact h.2.1 a.name (List.mem_map_of_mem ha)
        · obtain ⟨r, hr, heq⟩ := List.mem_map.1 hpart
          cases heq
          exact absurd rfl hkind
      · exact h.2.2 n (attributeNames_of_function hn)
  | .assignment a, claimed, h => by
    rw [keep]
    intro m hm
    rw [List.mem_singleton.1 hm]
    refine ⟨fun l hl => ?_, fun kind name hpart _ => ?_, fun n hn => ?_⟩
    · cases hl
    · cases hpart
    · exact h n (Assignment.names_of_plainNames hn)

theorem segmented_keepAll (ctx : ModuleContext) (scope : Scope) : (ds : List Declaration) →
    (claimed : List String) → (∀ n ∈ Declaration.namesIn ds, Id.IsSegment n) →
    ∀ m ∈ Member.withBelowIn (ctx.keepAll scope ds claimed).1, m.Segmented ctx
  | [], claimed, _ => by
    intro m hm
    cases hm
  | d :: more, claimed, h => by
    rw [Declaration.namesIn, List.forall_mem_append] at h
    rw [keepAll, Member.withBelowIn_append, List.forall_mem_append]
    exact ⟨segmented_keep ctx scope d claimed h.1, segmented_keepAll ctx scope more _ h.2⟩
end

theorem kept_keepAll (ctx : ModuleContext) (scope : Scope) (ds : List Declaration)
    (claimed : List String) (h : ∀ n ∈ Declaration.namesIn ds, Id.IsSegment n) :
    Kept ctx scope.id claimed (ctx.keepAll scope ds claimed).1
      (ctx.keepAll scope ds claimed).2 := by
  have hclaims := ctx.claims_keepAll scope ds claimed
  have hsegmented := segmented_keepAll ctx scope ds claimed h
  exact {
    mem_after := hclaims.mem_after
    fresh := hclaims.fresh
    nodup := hclaims.nodup
    direct := fun m hm l hl => hclaims.owner_eq hm hl
    nested := fun s head members hc m hm l hl => hclaims.owner_eq_of_class hc hm hl
    segment := fun m hm => (hsegmented m hm).label
    segments := fun m hm => (hsegmented m hm).parts
    names := fun m hm => (hsegmented m (Member.mem_withBelowIn_self hm)).names }

end ModuleContext

/-! ## 3. Where ids of one file meet -/

namespace Member.Kept

variable {ctx : ModuleContext} {owner : String} {claimed after : List String} {ms : List Member}

/-- A label is of a member of the scope itself, or its owner is a class whose own label comes
first. -/
theorem induction {P : Label → Prop} (h : Kept ctx owner claimed ms after)
    (top : ∀ l, l.owner = owner → Id.IsSegment l.name → P l)
    (nested : ∀ l c : Label, l.owner = c.id → Id.IsSegment l.name → c.kind = .class →
      (∃ m ∈ withBelowIn ms, m.label? = some c) → P c → P l) :
    ∀ m ∈ withBelowIn ms, ∀ l, m.label? = some l → P l := by
  refine forall_withBelowIn ms ?_ ?_
  · intro m hm l hl
    exact top l (h.direct m hm l hl) (h.segment m (mem_withBelowIn_self hm) l hl)
  · intro scope head members hc hclass m hm l hl
    have hsegment := h.segment m (mem_withBelowIn_of_class hm ms hc) l hl
    exact nested l ⟨.class, scope.id, head.name⟩ (h.nested scope head members hc m hm l hl)
      hsegment rfl ⟨_, hc, rfl⟩ (hclass _ rfl)

/-- Every label lies below the scope. -/
theorem below (h : Kept ctx owner claimed ms after) :
    ∀ m ∈ withBelowIn ms, ∀ l, m.label? = some l → ∃ r, l.id = Id.child owner r :=
  below_of_owners h.direct h.nested

/-- Whatever a label lies below is the scope, above it, or a class. -/
theorem above (h : Kept ctx owner claimed ms after) :
    ∀ m ∈ withBelowIn ms, ∀ l, m.label? = some l → ∀ x r, l.id = Id.child x r →
      x = owner ∨ (∃ r', owner = Id.child x r')
        ∨ ∃ m ∈ withBelowIn ms, ∃ c, m.label? = some c ∧ c.kind = .class ∧ c.id = x := by
  refine h.induction ?_ ?_
  · intro l howner hsegment x r heq
    rw [Label.id, howner] at heq
    rcases Id.child_eq_child hsegment heq.symm with ⟨rfl, -⟩ | ⟨r', hr', -⟩
    · exact .inl rfl
    · exact .inr (.inl ⟨r', hr'⟩)
  · rintro l c howner hsegment hkind ⟨m, hm, hc⟩ ih x r heq
    rw [Label.id, howner] at heq
    rcases Id.child_eq_child hsegment heq.symm with ⟨rfl, -⟩ | ⟨r', hr', -⟩
    · exact .inr (.inr ⟨m, hm, c, hc, hkind, rfl⟩)
    · exact ih x r' hr'

theorem unique (h : Kept ctx owner claimed ms after) {m m' : Member} {l l' : Label}
    (hm : m ∈ withBelowIn ms) (hm' : m' ∈ withBelowIn ms) (hl : m.label? = some l)
    (hl' : m'.label? = some l') (hid : l.id = l'.id) : m = m' :=
  eq_of_label_id h.nodup hm hm' hl hl' hid

end Member.Kept

/-- Whether the names in a member are apart, as far as they are shown: those of a class's attributes
from those of the members in it, and those of a function's results from those of its
parameters. -/
def Member.NamesApart (ctx : ModuleContext) (shown : EntityKind → String → Prop) : Member → Prop
  | .class _ _ members =>
    ∀ n ∈ members.flatMap attributeNames, ∀ m ∈ members, ∀ l, m.label? = some l → l.name = n →
      ¬ (shown .attribute l.id ∧ shown l.kind l.id)
  | .function scope head body =>
    ∀ a ∈ head.arguments, ∀ r ∈ ctx.results head body (Id.child scope.id head.name) scope.owner,
      r.name = a.name → ¬ (shown .parameter r.id ∧ shown .result r.id)
  | _ => True

/-- Whether names are apart in all that a file keeps. -/
def SourceFile.NamesApart (f : SourceFile) (ctx : ModuleContext)
    (shown : EntityKind → String → Prop) : Prop :=
  ∀ m ∈ Member.withBelowIn (f.members ctx), m.NamesApart ctx shown

namespace Member

theorem kind_of_parts {ctx : ModuleContext} {m : Member} {l : Label} {kind : EntityKind}
    {name : String} (hl : m.label? = some l) (h : (kind, name) ∈ m.parts ctx) :
    (l.kind = .class ∧ kind = .attribute) ∨ (l.kind = .enum ∧ kind = .enumInstance)
      ∨ (l.kind = .function ∧ (kind = .parameter ∨ kind = .result)) := by
  cases m with
  | «class» scope head members =>
    cases hl
    obtain ⟨n, hn, heq⟩ := List.mem_map.1 h
    cases heq
    exact .inl ⟨rfl, rfl⟩
  | enum scope head body =>
    cases hl
    obtain ⟨n, hn, heq⟩ := List.mem_map.1 h
    cases heq
    exact .inr (.inl ⟨rfl, rfl⟩)
  | function scope head body =>
    cases hl
    refine .inr (.inr ⟨rfl, ?_⟩)
    rcases List.mem_append.1 h with h | h
    · obtain ⟨a, ha, heq⟩ := List.mem_map.1 h
      cases heq
      exact .inl rfl
    · obtain ⟨r, hr, heq⟩ := List.mem_map.1 h
      cases heq
      exact .inr rfl
  | assignment a => cases hl

namespace Kept

variable {ctx : ModuleContext} {owner : String} {after : List String} {ms : List Member}
  {shown : EntityKind → String → Prop} {m m' : Member} {l l' : Label}
  {kind kind' : EntityKind} {name name' : String}

theorem id_ne_owner (h : Kept ctx owner [owner] ms after) (hm : m ∈ withBelowIn ms)
    (hl : m.label? = some l) : l.id ≠ owner := by
  have hmem : l.id ∈ labelIds ms := mem_labelIds hm hl
  simpa using h.fresh l.id hmem

theorem owner_ne_child (h : Kept ctx owner [owner] ms after) (hm : m ∈ withBelowIn ms)
    (hl : m.label? = some l) (r : String) : owner ≠ Id.child l.id r := by
  obtain ⟨r', hr'⟩ := h.below m hm l hl
  rw [hr']
  exact (Id.child_ne_self owner r' r).symm

/-- A name with a slash in it is that of a result. -/
theorem function_of_not_isSegment (h : Kept ctx owner [owner] ms after) (hm : m ∈ withBelowIn ms)
    (hl : m.label? = some l) (hpart : (kind, name) ∈ m.parts ctx) (hname : ¬ Id.IsSegment name) :
    l.kind = .function := by
  have hkind : kind = .result := by
    by_contra hkind
    exact hname (h.segments m hm kind name hpart hkind)
  rw [hkind] at hpart
  rcases kind_of_parts hl hpart with ⟨-, hk⟩ | ⟨-, hk⟩ | ⟨hfunction, -⟩
  · cases hk
  · cases hk
  · exact hfunction

/-- Neither the scope nor a member lies below a function. -/
theorem ne_child_of_function (h : Kept ctx owner [owner] ms after) (hm : m ∈ withBelowIn ms)
    (hl : m.label? = some l) (hfunction : l.kind = .function) {x : String}
    (hx : x = owner ∨ ∃ m' ∈ withBelowIn ms, ∃ l', m'.label? = some l' ∧ l'.id = x)
    (r : String) : x ≠ Id.child l.id r := by
  intro hr
  rcases hx with rfl | ⟨m', hm', l', hl', rfl⟩
  · exact h.owner_ne_child hm hl r hr
  · rcases h.above m' hm' l' hl' l.id r hr with heq | ⟨r', hr'⟩ | ⟨m₂, hm₂, c, hc, hclass, hid₂⟩
    · exact h.id_ne_owner hm hl heq
    · exact h.owner_ne_child hm hl r' hr'
    · have hsame := h.unique hm₂ hm hc hl hid₂
      rw [hsame, hl] at hc
      cases hc
      rw [hfunction] at hclass
      cases hclass

/-- The id of a part tells the owner and the name of the part, unless both names hold slashes. -/
theorem part_inj (h : Kept ctx owner [owner] ms after) (hm : m ∈ withBelowIn ms)
    (hl : m.label? = some l) (hpart : (kind, name) ∈ m.parts ctx) {x : String}
    (hx : x = owner ∨ ∃ m' ∈ withBelowIn ms, ∃ l', m'.label? = some l' ∧ l'.id = x)
    (hname' : Id.IsSegment name') (hid : Id.child l.id name = Id.child x name') :
    l.id = x ∧ name = name' := by
  rcases Id.child_eq_child hname' hid with heq | ⟨r, hr, hname⟩
  · exact heq
  · have hslash : ¬ Id.IsSegment name := hname ▸ Id.not_isSegment_child r name'
    have hfunction := h.function_of_not_isSegment hm hl hpart hslash
    exact absurd hr (h.ne_child_of_function hm hl hfunction hx r)

/-- The id of a part tells the owner and the name of the part. -/
theorem part_eq_part (h : Kept ctx owner [owner] ms after) (hm : m ∈ withBelowIn ms)
    (hl : m.label? = some l) (hpart : (kind, name) ∈ m.parts ctx) (hm' : m' ∈ withBelowIn ms)
    (hl' : m'.label? = some l') (hpart' : (kind', name') ∈ m'.parts ctx)
    (hid : Id.child l.id name = Id.child l'.id name') : l.id = l'.id ∧ name = name' := by
  rcases Id.child_eq_child_cases hid with heq | ⟨r, hr, hname⟩ | ⟨r, hr, hname⟩
  · exact heq
  · have hslash : ¬ Id.IsSegment name := hname ▸ Id.not_isSegment_child r name'
    have hfunction := h.function_of_not_isSegment hm hl hpart hslash
    exact absurd hr (h.ne_child_of_function hm hl hfunction (.inr ⟨m', hm', l', hl', rfl⟩) r)
  · have hslash : ¬ Id.IsSegment name' := hname ▸ Id.not_isSegment_child r name
    have hfunction := h.function_of_not_isSegment hm' hl' hpart' hslash
    exact absurd hr (h.ne_child_of_function hm' hl' hfunction (.inr ⟨m, hm, l, hl, rfl⟩) r)

/-- Where a part of a member has the id of a member, the two are an attribute of a class and a
member in it. -/
theorem part_meets_member (h : Kept ctx owner [owner] ms after) (hm : m ∈ withBelowIn ms)
    (hl : m.label? = some l) (hpart : (kind, name) ∈ m.parts ctx) (hm' : m' ∈ withBelowIn ms)
    (hl' : m'.label? = some l') (hid : Id.child l.id name = l'.id)
    (hapart : m.NamesApart ctx shown) : ¬ (shown kind l'.id ∧ shown l'.kind l'.id) := by
  rcases mem_or_inClass ms hm' with hdirect | ⟨scope, head, members, hc, hin⟩
  · have howner := h.direct m' hdirect l' hl'
    have heq := h.part_inj hm hl hpart (.inl howner) (h.segment m' hm' l' hl') hid
    exact absurd (heq.1.trans howner) (h.id_ne_owner hm hl)
  · have howner := h.nested scope head members hc m' hin l' hl'
    have heq := h.part_inj hm hl hpart (.inr ⟨_, hc, _, rfl, howner.symm⟩)
      (h.segment m' hm' l' hl') hid
    have hsame := h.unique hm hc hl rfl (heq.1.trans howner)
    subst hsame
    obtain ⟨n, hn, hpair⟩ := List.mem_map.1 hpart
    cases hpair
    exact hapart _ hn m' hin l' hl' heq.2.symm

/-- Where parts of different kinds have one id, they are a parameter and a result of a function. -/
theorem part_meets_part (h : Kept ctx owner [owner] ms after) (hm : m ∈ withBelowIn ms)
    (hl : m.label? = some l) (hpart : (kind, name) ∈ m.parts ctx) (hm' : m' ∈ withBelowIn ms)
    (hl' : m'.label? = some l') (hpart' : (kind', name') ∈ m'.parts ctx)
    (hid : Id.child l.id name = Id.child l'.id name') (hkind : kind' ≠ .result)
    (hne : kind ≠ kind') (hapart : m.NamesApart ctx shown) :
    ¬ (shown kind' (Id.child l.id name) ∧ shown kind (Id.child l.id name)) := by
  have hsegment := h.segments m' hm' kind' name' hpart' hkind
  obtain ⟨hids, hnames⟩ := h.part_inj hm hl hpart (.inr ⟨m', hm', l', hl', rfl⟩) hsegment hid
  have hsame := h.unique hm hm' hl hl' hids
  subst hsame
  have hkinds := kind_of_parts hl hpart
  have hkinds' := kind_of_parts hl hpart'
  cases m with
  | «class» scope head members =>
    cases hl
    simp only [reduceCtorEq, true_and, false_and, or_false] at hkinds hkinds'
    exact absurd (hkinds.trans hkinds'.symm) hne
  | enum scope head body =>
    cases hl
    simp only [reduceCtorEq, true_and, false_and, or_false, false_or] at hkinds hkinds'
    exact absurd (hkinds.trans hkinds'.symm) hne
  | function scope head body =>
    cases hl
    rcases List.mem_append.1 hpart' with hpart' | hpart'
    · obtain ⟨a, ha, hpair'⟩ := List.mem_map.1 hpart'
      cases hpair'
      rcases List.mem_append.1 hpart with hpart | hpart
      · obtain ⟨b, hb, hpair⟩ := List.mem_map.1 hpart
        cases hpair
        exact absurd rfl hne
      · obtain ⟨r, hr, hpair⟩ := List.mem_map.1 hpart
        cases hpair
        have hclash := hapart a ha r hr hnames
        rwa [ctx.id_of_mem_results hr] at hclash
    · obtain ⟨r, hr, hpair'⟩ := List.mem_map.1 hpart'
      cases hpair'
      exact absurd rfl hkind
  | assignment a => cases hl

/-- Where names are apart, what is shown with one id is of one kind. -/
theorem declares_inj (h : Kept ctx owner [owner] ms after)
    (hapart : ∀ m ∈ withBelowIn ms, m.NamesApart ctx shown) {id : String}
    (hm : m ∈ withBelowIn ms) (hm' : m' ∈ withBelowIn ms) (hid : m.Declares ctx kind id)
    (hid' : m'.Declares ctx kind' id) (hshown : shown kind id) (hshown' : shown kind' id) :
    kind = kind' := by
  obtain ⟨l, hl, hid⟩ := declares_iff.1 hid
  obtain ⟨l', hl', hid'⟩ := declares_iff.1 hid'
  rcases hid with ⟨rfl, rfl⟩ | ⟨name, hpart, rfl⟩
  · rcases hid' with ⟨rfl, hids⟩ | ⟨name', hpart', hids⟩
    · have hsame := h.unique hm hm' hl hl' hids
      subst hsame
      rw [hl] at hl'
      cases hl'
      rfl
    · exact absurd ⟨hshown', hshown⟩
        (h.part_meets_member hm' hl' hpart' hm hl hids (hapart m' hm'))
  · rcases hid' with ⟨rfl, hids⟩ | ⟨name', hpart', hids⟩
    · rw [hids] at hshown hshown'
      exact absurd ⟨hshown, hshown'⟩
        (h.part_meets_member hm hl hpart hm' hl' hids (hapart m hm))
    · by_contra hne
      by_cases hkind : kind' = .result
      · have hkind' : kind ≠ .result := fun heq => hne (heq.trans hkind.symm)
        rw [← hids] at hshown hshown'
        exact h.part_meets_part hm' hl' hpart' hm hl hpart hids hkind' (Ne.symm hne)
          (hapart m' hm') ⟨hshown, hshown'⟩
      · exact h.part_meets_part hm hl hpart hm' hl' hpart' hids.symm hkind hne (hapart m hm)
          ⟨hshown', hshown⟩

/-- No member has the id of the scope around it. -/
theorem not_declares_owner (h : Kept ctx owner [owner] ms after) (hm : m ∈ withBelowIn ms) :
    ¬ m.Declares ctx kind owner := by
  intro hid
  obtain ⟨l, hl, ⟨-, hid⟩ | ⟨name, -, hid⟩⟩ := declares_iff.1 hid
  · exact h.id_ne_owner hm hl hid.symm
  · exact h.owner_ne_child hm hl name hid.symm

end Kept

end Member

namespace SourceFile

variable {f : SourceFile} {ctx : ModuleContext} {shown : EntityKind → String → Prop}

theorem kept_members (ctx : ModuleContext) (h : ∀ n ∈ f.declaredNames, Id.IsSegment n) :
    Member.Kept ctx (Id.ofPath f.path) [Id.ofPath f.path] (f.members ctx) (f.kept ctx).2 :=
  ctx.kept_keepAll f.scope _ _ h

theorem namesApart_of_inj (h : ∀ n ∈ f.declaredNames, Id.IsSegment n)
    (hinj : ∀ kind kind' id, f.Declares ctx kind id → f.Declares ctx kind' id →
      shown kind id → shown kind' id → kind = kind') :
    f.NamesApart ctx shown := by
  have hkept := kept_members ctx h
  intro m hm
  cases m with
  | «class» scope head members =>
    rintro n hn m' hm' l' hl' rfl ⟨hshown, hshown'⟩
    have hself : f.Declares ctx l'.kind l'.id :=
      .inr ⟨m', Member.mem_withBelowIn_of_class hm' _ hm, .self hl'⟩
    have hpart : f.Declares ctx .attribute (Id.child (Id.child scope.id head.name) l'.name) :=
      .inr ⟨_, hm, .part (l := ⟨.class, scope.id, head.name⟩) rfl (List.mem_map_of_mem hn)⟩
    rw [← hkept.nested scope head members hm m' hm' l' hl'] at hpart
    have hkind := hinj _ _ _ hself hpart hshown' hshown
    cases m' <;> cases hl' <;> cases hkind
  | function scope head body =>
    rintro a ha r hr hname ⟨hshown, hshown'⟩
    have hparameter : f.Declares ctx .parameter
        (Id.child (Id.child scope.id head.name) a.name) :=
      .inr ⟨_, hm, .part (l := ⟨.function, scope.id, head.name⟩) rfl
        (List.mem_append_left _ (List.mem_map.2 ⟨a, ha, rfl⟩))⟩
    have hresult : f.Declares ctx .result (Id.child (Id.child scope.id head.name) r.name) :=
      .inr ⟨_, hm, .part (l := ⟨.function, scope.id, head.name⟩) rfl
        (List.mem_append_right _ (List.mem_map.2 ⟨r, hr, rfl⟩))⟩
    rw [← hname, ← ctx.id_of_mem_results hr] at hparameter
    rw [← ctx.id_of_mem_results hr] at hresult
    cases hinj _ _ _ hparameter hresult hshown hshown'
  | enum | assignment => exact trivial

/-- Only a class's attributes and a function's results can meet another kind in one file. -/
theorem inj_of_namesApart (h : ∀ n ∈ f.declaredNames, Id.IsSegment n)
    (hapart : f.NamesApart ctx shown) {kind kind' : EntityKind} {id : String}
    (hid : f.Declares ctx kind id) (hid' : f.Declares ctx kind' id) (hshown : shown kind id)
    (hshown' : shown kind' id) : kind = kind' := by
  have hkept := kept_members ctx h
  rcases hid with ⟨rfl, rfl⟩ | ⟨m, hm, hid⟩
  · rcases hid' with ⟨rfl, -⟩ | ⟨m', hm', hid'⟩
    · rfl
    · exact absurd hid' (hkept.not_declares_owner hm')
  · rcases hid' with ⟨rfl, rfl⟩ | ⟨m', hm', hid'⟩
    · exact absurd hid (hkept.not_declares_owner hm)
    · exact hkept.declares_inj hapart hm hm' hid hid' hshown hshown'

/-- What a file declares has the id of the module or lies below it. -/
theorem Declares.within (h : ∀ n ∈ f.declaredNames, Id.IsSegment n) {kind : EntityKind}
    {id : String} (hid : f.Declares ctx kind id) :
    id = Id.ofPath f.path ∨ ∃ r, id = Id.child (Id.ofPath f.path) r := by
  have hkept := kept_members ctx h
  rcases hid with ⟨-, rfl⟩ | ⟨m, hm, hid⟩
  · exact .inl rfl
  · obtain ⟨l, hl, hid⟩ := Member.declares_iff.1 hid
    obtain ⟨r, hr⟩ := hkept.below m hm l hl
    rcases hid with ⟨-, rfl⟩ | ⟨name, -, rfl⟩
    · exact .inr ⟨r, hr⟩
    · exact .inr ⟨Id.child r name, by rw [hr, Id.child_child]⟩

end SourceFile

/-! ## 4. Packages -/

namespace Id

/-- Whether two ids are the same or one lies below the other. -/
def Related (p q : String) : Prop := p = q ∨ (∃ r, q = child p r) ∨ ∃ r, p = child q r

theorem related_of_child_eq {p q r s : String} (h : child p r = child q s) : Related p q := by
  rcases child_eq_child_cases h with ⟨heq, -⟩ | ⟨t, hq, -⟩ | ⟨t, hp, -⟩
  · exact .inl heq
  · exact .inr (.inl ⟨t, hq⟩)
  · exact .inr (.inr ⟨t, hp⟩)

/-- Two ids with an id at or below both are related. -/
theorem related_of_common {p q id : String} (hp : id = p ∨ ∃ r, id = child p r)
    (hq : id = q ∨ ∃ r, id = child q r) : Related p q := by
  rcases hp with rfl | ⟨r, rfl⟩
  · rcases hq with rfl | ⟨s, hs⟩
    · exact .inl rfl
    · exact .inr (.inr ⟨s, hs⟩)
  · rcases hq with rfl | ⟨s, hs⟩
    · exact .inr (.inl ⟨r, rfl⟩)
    · exact related_of_child_eq hs

end Id

/-- The surroundings in which a file of a package is seen. -/
def SourceFile.contextIn (f : SourceFile) (files : List SourceFile) (style : DocstringStyle) :
    ModuleContext :=
  f.context (PackageIndex.build (files.map SourceFile.scan)) style.provider

/-- Whether ids are apart in the files of a package, as far as they are shown: names in each file,
and, of two files whose module ids are related, what the one and the other declare. -/
structure FilesApart (files : List SourceFile) (style : DocstringStyle)
    (shown : EntityKind → String → Prop) : Prop where
  within : ∀ f ∈ files, f.NamesApart (f.contextIn files style) shown
  between : ∀ f ∈ files, ∀ g ∈ files, f ≠ g → Id.Related (Id.ofPath f.path) (Id.ofPath g.path) →
    ∀ kind kind' id, f.Declares (f.contextIn files style) kind id →
      g.Declares (g.contextIn files style) kind' id → shown kind id → shown kind' id →
        kind = kind'

/-- The model of all files of a package. -/
def modelOf (files : List SourceFile) (o : Options) : Api :=
  (files.map fun f => f.model (f.contextIn files o.style)).foldl Api.merge
    { distribution := o.distribution, package := o.package, version := o.version }

/-- Whether the options show an entity: all of them, or those in the public view only. -/
def Shown (files : List SourceFile) (o : Options) (kind : EntityKind) (id : String) : Prop :=
  o.publicOnly = true →
    id ∈ (((modelOf files o).publicView?.getD (modelOf files o)).ids kind).toList

theorem analyze_eq (files : List SourceFile) (o : Options) :
    analyze files o = .ok
      (if o.publicOnly then
        (modelOf (selectFiles o.package files) o).publicView?.getD
          (modelOf (selectFiles o.package files) o)
      else modelOf (selectFiles o.package files) o) := by
  rw [analyze, assembleAll_eq]
  rfl

theorem mem_ids_modelOf {files : List SourceFile} {o : Options} {kind : EntityKind} {id : String} :
    id ∈ ((modelOf files o).ids kind).toList
      ↔ ∃ f ∈ files, f.Declares (f.contextIn files o.style) kind id := by
  rw [modelOf, Api.mem_ids_foldl_merge, or_iff_right (by cases kind <;> exact List.not_mem_nil)]
  simp only [List.mem_map, exists_exists_and_eq_and, SourceFile.mem_ids_model]

/-- The ids of the final model are those that are declared and shown. -/
theorem mem_ids_shown {files : List SourceFile} {o : Options} {kind : EntityKind} {id : String} :
    id ∈ ((if o.publicOnly then (modelOf files o).publicView?.getD (modelOf files o)
        else modelOf files o).ids kind).toList
      ↔ (∃ f ∈ files, f.Declares (f.contextIn files o.style) kind id) ∧ Shown files o kind id := by
  rw [← mem_ids_modelOf, Shown]
  cases o.publicOnly with
  | false => simp
  | true =>
    simp only [if_true, true_implies]
    exact ⟨fun hid => ⟨Api.mem_ids_of_publicView hid, hid⟩, And.right⟩

/-- **When every id stands for one kind of entity.**  Whatever the files and the options, if no
declared name holds a slash: ids are apart in the model exactly if, as far as entities are shown, no
class has an attribute with the name of a member in it, no function has a result with the name of a
parameter, and no two files whose module ids are related declare one id with two kinds. -/
theorem analyze_idsApart_iff (files : List SourceFile) (o : Options)
    (hnames : ∀ f ∈ files, ∀ n ∈ f.declaredNames, Id.IsSegment n) :
    ∃ api, analyze files o = .ok api
      ∧ (api.IdsApart ↔ FilesApart (selectFiles o.package files) o.style
        (Shown (selectFiles o.package files) o)) := by
  have hselected : ∀ f ∈ selectFiles o.package files, ∀ n ∈ f.declaredNames, Id.IsSegment n := by
    intro f hf
    rw [selectFiles, List.mem_mergeSort, List.mem_filter] at hf
    exact hnames f hf.1
  refine ⟨_, analyze_eq files o, ?_⟩
  simp only [Api.IdsApart, mem_ids_shown]
  constructor
  · intro hapart
    have hinj : ∀ f ∈ selectFiles o.package files, ∀ g ∈ selectFiles o.package files,
        ∀ kind kind' id, f.Declares (f.contextIn (selectFiles o.package files) o.style) kind id →
          g.Declares (g.contextIn (selectFiles o.package files) o.style) kind' id →
            Shown (selectFiles o.package files) o kind id →
              Shown (selectFiles o.package files) o kind' id → kind = kind' := by
      intro f hf g hg kind kind' id hid hid' hshown hshown'
      by_contra hne
      exact hapart kind kind' hne id ⟨⟨f, hf, hid⟩, hshown⟩ ⟨⟨g, hg, hid'⟩, hshown'⟩
    exact ⟨fun f hf => SourceFile.namesApart_of_inj (hselected f hf) (hinj f hf f hf),
      fun f hf g hg _ _ => hinj f hf g hg⟩
  · rintro hapart kind kind' hne id ⟨⟨f, hf, hid⟩, hshown⟩ ⟨⟨g, hg, hid'⟩, hshown'⟩
    by_cases hfg : f = g
    · subst hfg
      exact hne (SourceFile.inj_of_namesApart (hselected f hf) (hapart.within f hf) hid hid'
        hshown hshown')
    · exact hne (hapart.between f hf g hg hfg
        (Id.related_of_common (hid.within (hselected f hf)) (hid'.within (hselected g hg)))
        kind kind' id hid hid' hshown hshown')

/-! ## 5. A class with an attribute and a method -/

namespace Sample

def classHead : ClassHead := ⟨"C", "m.C", [], [], [], [], none, 1⟩

/-- The assignment of a number to a variable. -/
def assigned (name : String) : Assignment :=
  ⟨[.name name none none], some (.int (.int 1)), none, none, 2⟩

/-- A method that returns nothing. -/
def method (name : String) : FunctionHead :=
  ⟨name, "m.C." ++ name, [⟨"self", .pos, false, true, false, none, none, none⟩], none, none, false,
    false, false, [], none, 3⟩

def file (attributeName methodName : String) : SourceFile where
  path := "m.py"
  fullname := "m"
  docstring := none
  body := [.classDef classHead
    [.assignment (assigned attributeName), .funcDef (method methodName) []]]

theorem selectFiles_file (n k : String) : selectFiles "" [file n k] = [file n k] := by
  have hfilter : [file n k].filter (fun f => isInPackage "" f.fullname) = [file n k] := rfl
  rw [selectFiles, hfilter, List.mergeSort_singleton]

def scope : Scope := ⟨"m", .module "m", none⟩

/-- The members of the class. -/
def inClass (ctx : ModuleContext) (attributeName : String) : List Member :=
  [.assignment (assigned attributeName),
    .function (ctx.classScope scope classHead) (method "x") []]

theorem attributeNames_inClass (ctx : ModuleContext) (n : String) :
    (inClass ctx n).flatMap Member.attributeNames = [n] := rfl

theorem withBelowIn_members (ctx : ModuleContext) (n : String) :
    Member.withBelowIn ((file n "x").members ctx)
      = inClass ctx n ++ [.class scope classHead (inClass ctx n)] := by
  have hpath : Id.ofPath "m.py" = "m" := by decide
  have hscope : (file n "x").scope = scope := by
    rw [SourceFile.scope, file, hpath]
    rfl
  have hclass : Id.child scope.id classHead.name = "m/C" := by decide
  have hinner : (ctx.classScope scope classHead).id = "m/C" := hclass
  have hmethod : Id.child "m/C" (method "x").name = "m/C/x" := by decide
  have henum : classHead.isEnum = false := by decide
  rw [SourceFile.members, SourceFile.kept, hscope]
  simp [file, Statement.declarationsIn, Statement.declarations, ModuleContext.keepAll,
    ModuleContext.keep, hpath, henum, hclass, hinner, hmethod, inClass, Member.withBelowIn,
    Member.withBelow]

theorem different_names_apart :
    (∀ f ∈ [file "y" "x"], ∀ n ∈ f.declaredNames, Id.IsSegment n)
      ∧ ∃ api, analyze [file "y" "x"] {} = .ok api ∧ api.IdsApart := by
  have hnames : ∀ f ∈ [file "y" "x"], ∀ n ∈ f.declaredNames, Id.IsSegment n := by
    intro f hf
    rw [List.mem_singleton.1 hf]
    decide
  obtain ⟨api, hapi, hiff⟩ := analyze_idsApart_iff [file "y" "x"] {} hnames
  refine ⟨hnames, api, hapi, hiff.2 ?_⟩
  rw [selectFiles_file]
  constructor
  · intro f hf m hm
    rw [List.mem_singleton.1 hf, withBelowIn_members] at hm
    rcases List.mem_append.1 hm with hm | hm
    · simp only [inClass, List.mem_cons, List.not_mem_nil, or_false] at hm
      rcases hm with rfl | rfl
      · exact trivial
      · intro a ha r hr
        cases hr
    · rw [List.mem_singleton.1 hm]
      intro n hn m hm l hl hname
      rw [attributeNames_inClass, List.mem_singleton] at hn
      simp only [inClass, List.mem_cons, List.not_mem_nil, or_false] at hm
      rcases hm with rfl | rfl
      · cases hl
      · cases hl
        rw [hn] at hname
        exact absurd hname (by decide)
  · intro f hf g hg hne
    rw [List.mem_singleton.1 hf, List.mem_singleton.1 hg] at hne
    exact absurd rfl hne

/-- An attribute and a method of one name share an id. -/
theorem shared_name_clash :
    ∃ api, analyze [file "x" "x"] {} = .ok api ∧ ¬ api.IdsApart := by
  refine ⟨_, analyze_eq _ _, fun hapart => ?_⟩
  have hfile : file "x" "x" ∈ selectFiles "" [file "x" "x"] := by
    rw [selectFiles_file]
    exact List.mem_singleton_self _
  have hshown : ∀ kind id, Shown (selectFiles "" [file "x" "x"]) {} kind id := by
    intro kind id h
    cases h
  have hattribute : ∀ ctx, (file "x" "x").Declares ctx .attribute
      (Id.child (Id.child scope.id classHead.name) "x") := by
    intro ctx
    refine .inr ⟨.class scope classHead (inClass ctx "x"), ?_,
      .part (l := ⟨.class, scope.id, classHead.name⟩) rfl ?_⟩
    · rw [withBelowIn_members]
      exact List.mem_append_right _ (List.mem_singleton_self _)
    · rw [Member.parts, attributeNames_inClass]
      exact List.mem_singleton_self _
  have hfunction : ∀ ctx, (file "x" "x").Declares ctx .function
      (Id.child (Id.child scope.id classHead.name) "x") := by
    intro ctx
    refine .inr ⟨.function (ctx.classScope scope classHead) (method "x") [], ?_,
      .self (l := ⟨.function, Id.child scope.id classHead.name, "x"⟩) rfl⟩
    rw [withBelowIn_members]
    simp [inClass]
  exact hapart .attribute .function (by decide) _
    (mem_ids_shown.2 ⟨⟨_, hfile, hattribute _⟩, hshown _ _⟩)
    (mem_ids_shown.2 ⟨⟨_, hfile, hfunction _⟩, hshown _ _⟩)

end Sample

end ApiSurface
