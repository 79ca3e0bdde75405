import ApiSurface.Proofs.TreeCodec
import ApiSurface.Signature.DeclaredType
import Mathlib.Tactic.SplitIfs
/-!
# Declared types through JSON

A type comes back from its JSON exactly if the doubles in it are finite.  The doubles in a type that
was declared are doubles of literals in the annotation it was declared with: unions, sets and
literal types are sorted and lose repetitions, but no step makes a new double.  Annotations in a
tree that was read from a text hold finite doubles only, so that every type declared in such a tree
comes back as it is (`declared_types_reread`).
-/

namespace ApiSurface

namespace ApiType

/-! ## 1. Doubles in types that are built -/

/-- That all doubles in a type have a property. -/
def Only (p : Binary64 → Prop) (t : ApiType) : Prop := ∀ x ∈ t.doubles, p x

section Building

variable {p : Binary64 → Prop} {t : ApiType} {types : List ApiType}

theorem only_of_nil (h : t.doubles = []) : Only p t := by
  rw [Only, h]
  simp

theorem forall_mem_doublesIn : (∀ x ∈ doublesIn types, p x) ↔ ∀ t ∈ types, Only p t := by
  induction types with
  | nil => simp [doublesIn]
  | cons t types ih => rw [doublesIn, List.forall_mem_append, ih, List.forall_mem_cons, Only]

theorem only_literal {values : List Literal} :
    Only p (.literal values) ↔ ∀ l ∈ values, ∀ x ∈ l.doubles, p x := List.forall_mem_flatMap

theorem only_getD {o : Option ApiType} (h : ∀ t ∈ o, Only p t) : Only p (o.getD .unknown) := by
  cases o with
  | none => exact only_of_nil rfl
  | some t => exact h t rfl

theorem only_setOf (h : ∀ t ∈ types, Only p t) : Only p (setOf types) :=
  forall_mem_doublesIn.2 fun t ht => h t (Ascending.mem_of_mem_ofList ht)

theorem only_literalOf {values : List Literal} (h : ∀ l ∈ values, ∀ x ∈ l.doubles, p x) :
    Only p (literalOf values) :=
  only_literal.2 fun l hl => h l (Ascending.mem_of_mem_ofList hl)

theorem only_unionMembers (h : Only p t) : ∀ u ∈ t.unionMembers, Only p u := by
  cases t with
  | union types => exact forall_mem_doublesIn.1 h
  | unknown | named | namedSequence | enum | boundary | list | set | tuple | dict | callable
  | literal | final | typeVar =>
    intro u hu
    obtain rfl := List.mem_singleton.1 hu
    exact h

theorem only_unionOf (h : ∀ t ∈ types, Only p t) : Only p (unionOf types) := by
  have hmembers : ∀ u ∈ (Ascending.ofList (types.flatMap unionMembers) : TypeSet).toList,
      Only p u := by
    intro u hu
    obtain ⟨t, ht, hut⟩ := List.mem_flatMap.1 (Ascending.mem_of_mem_ofList hu)
    exact only_unionMembers (h t ht) u hut
  unfold unionOf
  split
  · exact only_of_nil rfl
  · rename_i u hu
    exact hmembers u (by rw [hu]; exact List.mem_cons_self)
  · exact forall_mem_doublesIn.2 hmembers

theorem only_dictOf (h : ∀ t ∈ types, Only p t) : Only p (dictOf types) := by
  rw [Only, dictOf, doubles, List.forall_mem_append]
  constructor
  · exact only_getD fun t ht => h t (List.mem_of_mem_head? ht)
  · exact only_getD fun t ht => h t (List.mem_of_mem_tail (List.mem_of_mem_head? ht))

theorem only_applied (qname : String) (h : ∀ t ∈ types, Only p t) :
    Only p (applied qname types) := by
  unfold applied
  split
  · exact only_of_nil rfl
  · exact forall_mem_doublesIn.2 h

theorem only_ofClass (fullname : String) (h : ∀ t ∈ types, Only p t) :
    Only p (ofClass fullname types) := by
  unfold ofClass
  split_ifs
  · exact forall_mem_doublesIn.2 h
  · exact only_setOf h
  · exact forall_mem_doublesIn.2 h
  · exact only_dictOf h
  · exact only_unionOf h
  · exact only_applied _ h

theorem literal_mem_of_mapM {values : List (List Literal)}
    (h : types.mapM literals? = some values) : ∀ l ∈ values, .literal l ∈ types := by
  induction types generalizing values with
  | nil =>
    obtain rfl : values = [] := by simpa using h.symm
    simp
  | cons t types ih =>
    rw [List.mapM_cons] at h
    obtain ⟨first, hfirst, h⟩ := Option.bind_eq_some_iff.1 h
    obtain ⟨rest, hrest, h⟩ := Option.bind_eq_some_iff.1 h
    obtain rfl : first :: rest = values := Option.some.inj h
    obtain rfl : t = .literal first := by
      cases t <;> simp_all [literals?]
    rw [List.forall_mem_cons]
    exact ⟨List.mem_cons_self, fun l hl => List.mem_cons_of_mem _ (ih hrest l hl)⟩

theorem only_joined (h : ∀ t ∈ types, Only p t) : Only p (joined types) := by
  unfold joined
  split
  · rename_i values hvalues
    refine only_literalOf fun l hl => ?_
    obtain ⟨group, hgroup, hl⟩ := List.mem_flatten.1 hl
    exact only_literal.1 (h _ (literal_mem_of_mapM hvalues group hgroup)) l hl
  · exact only_unionOf h

end Building

end ApiType

open ApiType (Only only_of_nil)

/-! ## 2. Doubles in declared types -/

section Declared

variable {p : Binary64 → Prop} (s : TypeScope)

theorem TypeScope.only_anyType (reason : AnyReason) (missing : Option String) :
    Only p (s.anyType reason missing) := by
  unfold anyType
  split
  · exact ApiType.only_applied _ (by simp)
  · split
    · exact only_of_nil rfl
    · exact only_of_nil rfl

theorem TypeScope.only_writtenType (name : String) {args : List ApiType}
    (h : ∀ t ∈ args, Only p t) : Only p (s.writtenType name args) := by
  unfold writtenType
  split_ifs
  · exact only_of_nil rfl
  · exact only_of_nil rfl
  · exact ApiType.forall_mem_doublesIn.2 h
  · exact ApiType.only_setOf h
  · exact ApiType.forall_mem_doublesIn.2 h
  · exact ApiType.only_dictOf h
  · exact ApiType.only_applied _ h

namespace Annotation

mutual
/-- What holds of the doubles of an annotation holds of the doubles of its type. -/
theorem only_type : (a : Annotation) → (∀ x ∈ a.doubles, p x) → Only p (a.type s)
  | .any reason missing, _ => s.only_anyType reason missing
  | .none, _ => only_of_nil rfl
  | .inst fullname args, h => ApiType.only_ofClass fullname (only_types args h)
  | .union items, h => ApiType.only_joined (only_types items h)
  | .tuple items, h => ApiType.forall_mem_doublesIn.2 (only_types items h)
  | .callable parameters result, h => by
    rw [doubles, List.forall_mem_append] at h
    rw [Only, type, ApiType.doubles, List.forall_mem_append, ApiType.forall_mem_doublesIn]
    exact ⟨only_types parameters h.1, only_type result h.2⟩
  | .literal value, h => ApiType.only_literalOf (by simpa [doubles] using h)
  | .typeVar name fullname bound, h => by
    have hbound := only_boundType bound h
    rw [type]
    split
    · exact ApiType.only_getD hbound
    · cases hb : boundType s bound with
      | none => exact only_of_nil rfl
      | some t => exact hbound t hb
  | .unbound name args, h => s.only_writtenType name (only_types args h)
  | .typeOf item, h => ApiType.forall_mem_doublesIn.2 (by simpa using only_type item h)
  | .uninhabited, _ => only_of_nil rfl
  | .other _, _ => only_of_nil rfl

theorem only_types : (l : List Annotation) → (∀ x ∈ doublesIn l, p x) →
    ∀ t ∈ types s l, Only p t
  | [], _ => by simp [types]
  | a :: l, h => by
    rw [doublesIn, List.forall_mem_append] at h
    rw [types]
    exact List.forall_mem_cons.2 ⟨only_type a h.1, only_types l h.2⟩

theorem only_boundType : (bound : Option Annotation) → (∀ x ∈ boundDoubles bound, p x) →
    ∀ t ∈ boundType s bound, Only p t
  | Option.none, _ => by simp [boundType]
  | some b, h => by
    rw [boundType]
    split
    · simp
    · simpa using only_type b h
end

/-- The arguments that were written come from the annotation as it was written. -/
theorem doubles_withWritten {a : Annotation} {written : Option Annotation}
    (ha : ∀ x ∈ a.doubles, p x) (hw : ∀ w ∈ written, ∀ x ∈ w.doubles, p x) :
    ∀ x ∈ (a.withWritten written).doubles, p x := by
  unfold withWritten
  split
  · split
    · exact hw (.unbound _ _) rfl
    · exact ha
  · exact ha

end Annotation

end Declared

/-! ## 3. Reading types back -/

theorem ApiType.reread_iff (t : ApiType) :
    ofJson t.toJson = .ok t ↔ ∀ x ∈ t.doubles, x.isFinite = true := by
  rw [ofJson_toJson, Except.ok.injEq, written_eq_self_iff]

/-- **Types lose nothing in JSON.**  A type is read back from its JSON as the same type exactly if
the doubles in it are finite.  So is every type declared with annotations whose doubles are finite,
whatever was written beside them, and every type declared with annotations of a tree that was read
from a text. -/
theorem declared_types_reread :
    (∀ t : ApiType, ApiType.ofJson t.toJson = .ok t ↔ ∀ x ∈ t.doubles, x.isFinite = true)
      ∧ (∀ (s : TypeScope) (a : Annotation) (written : Option Annotation), a.IsFinite →
        (∀ w ∈ written, w.IsFinite) →
          ApiType.ofJson ((a.withWritten written).type s).toJson
            = .ok ((a.withWritten written).type s))
      ∧ ∀ (text origin : String) (f : SourceFile), SourceFile.parse text origin = .ok f →
        ∀ a ∈ f.annotations, ∀ written : Option Annotation, (∀ w ∈ written, w ∈ f.annotations) →
        ∀ s : TypeScope, ApiType.ofJson ((a.withWritten written).type s).toJson
          = .ok ((a.withWritten written).type s) := by
  have hdeclared : ∀ (s : TypeScope) (a : Annotation) (written : Option Annotation), a.IsFinite →
      (∀ w ∈ written, w.IsFinite) → ApiType.ofJson ((a.withWritten written).type s).toJson
        = .ok ((a.withWritten written).type s) := by
    intro s a written ha hw
    have hfinite := Annotation.doubles_withWritten ha hw
    rw [ApiType.reread_iff]
    exact Annotation.only_type s _ hfinite
  refine ⟨ApiType.reread_iff, hdeclared, ?_⟩
  intro text origin f hf a ha written hwritten s
  have hsound := SourceFile.sound_of_parse hf
  exact hdeclared s a written (hsound.isFinite ha) fun w hw => hsound.isFinite (hwritten w hw)

namespace Sample

/-- A tree with one annotation, the literal type of a half. -/
def literalTree : Json :=
  .object [("path", .string "m.py"), ("fullname", .string "m"),
    ("body", .array [.object [("node", .string "assignment"), ("lvalues", .array []),
      ("type", .object [("kind", .string "literal"), ("value", .float Api.half)])]])]

/-- The annotation of that tree. -/
def halfType : Annotation := .literal (.float Api.half)

def literalFile : SourceFile where
  path := "m.py"
  fullname := "m"
  docstring := none
  body := [.assignment ⟨[], none, some halfType, none, 0⟩]

theorem half_literal_reread :
    SourceFile.parse (literalTree.pretty ++ "\n") "m.json" = .ok literalFile
      ∧ literalFile.annotations = [halfType]
      ∧ ∀ s, ApiType.ofJson (halfType.type s).toJson = .ok (.literal [.float Api.half]) := by
  have htext : Json.parse (literalTree.pretty ++ "\n") = .ok literalTree := by
    have hhalf : (Json.float Api.half).Faithful := ⟨by decide, Api.half_rereads⟩
    exact Json.parse_pretty_of_faithful (by simp [literalTree, hhalf]) (by decide)
  have hfile : SourceFile.ofJson literalTree = .ok literalFile := rfl
  have hparse : SourceFile.parse (literalTree.pretty ++ "\n") "m.json" = .ok literalFile :=
    SourceFile.parse_of_json htext hfile
  have hall : literalFile.annotations = [halfType] := rfl
  obtain ⟨-, -, htree⟩ := declared_types_reread
  refine ⟨hparse, hall, fun s => ?_⟩
  exact htree _ _ _ hparse _ (by rw [hall]; exact List.mem_cons_self) none (by simp) s

end Sample

end ApiSurface
