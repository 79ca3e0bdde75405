import ApiSurface.Proofs.DocumentText
import ApiSurface.Proofs.TreeContents
/-!
# Program trees through JSON

What is written of a tree is read back as the same tree, if its numbers are such as reading gives:
this is `ofJson_toJson` for annotations, expressions and statements in turn.  What is written is
also complete: every record in it has all the fields of its kind, so that nothing is left to a
default (`Json.Complete`).

A tree that was read from a text has such numbers, so that it is written completely and comes back
from what is written of it (`reread_tree`).
-/

namespace ApiSurface

namespace Json

/-! ## 1. Reading what is written -/

section Records

variable {α : Type} {k key : String} {v : Json} {ms : Members} {f : Json → Decoded α} {d : α}

theorem withDefault_head (h : Lacks ms key) : withDefault ((key, v) :: ms) key d f = f v := by
  rw [withDefault, member?_head h]
  rfl

theorem withDefault_tail (h : k ≠ key) :
    withDefault ((k, v) :: ms) key d f = withDefault ms key d f := by
  rw [withDefault, member?_tail h, withDefault]

theorem asTagged_object {kind : String} (h : Lacks ms key) :
    asTagged key (.object ((key, .string kind) :: ms))
      = .ok (kind, .object ((key, .string kind) :: ms)) := by
  rw [asTagged, required_head h]
  rfl

theorem asRecord_object (keys : List String) : asRecord keys (.object ms) = .ok ms := rfl

theorem depth_lt_of_mem (key : String) (h : (key, v) ∈ ms) : v.depth < (Json.object ms).depth := by
  have hle : v.depth ≤ depthMembers ms := by
    induction ms with
    | nil => cases h
    | cons m ms ih =>
      obtain ⟨k, w⟩ := m
      rw [depthMembers_cons]
      rcases List.mem_cons.1 h with heq | h
      · cases heq
        exact Nat.le_max_left _ _
      · exact Nat.le_trans (ih h) (Nat.le_max_right _ _)
  rw [depth]
  omega

theorem asWord_int {n : Nat} (h : n < 0x100000000) : asWord (.int n) = .ok n := by
  have hn : (0 ≤ (n : Int) && (n : Int) < 0x100000000) = true := by
    simp only [Bool.and_eq_true, decide_eq_true_eq]
    omega
  rw [asWord, if_pos hn]
  rfl

theorem asBinary64_ofBinary64 {x : Binary64} (h : x.isFinite = true) :
    asBinary64 (ofBinary64 x) = .ok x := by
  rw [ofBinary64, if_pos h]
  rfl

/-- What may be absent comes back if it comes back where it is there. -/
theorem asOption_ofOption {write : α → Json} {read : Json → Decoded α} {o : Option α}
    (hnull : ∀ a, write a ≠ .null) (h : ∀ a ∈ o, read (write a) = .ok a) :
    asOption read (ofOption write o) = .ok o := by
  cases o with
  | none => rfl
  | some a =>
    rw [ofOption, asOption_of_ne_null (hnull a), h a rfl]
    rfl

theorem asOption_strings (o : Option String) :
    asOption asString (ofOption .string o) = .ok o :=
  asOption_ofOption (by simp) fun _ _ => rfl

theorem asList_of_mem {write : α → Json} {read : Json → Decoded α} {l : List α}
    (h : ∀ a ∈ l, read (write a) = .ok a) : asList read (.array (l.map write)) = .ok l := by
  induction l with
  | nil => rfl
  | cons a l ih =>
    rw [List.forall_mem_cons] at h
    exact asList_cons h.1 (ih h.2)

end Records

/-! ## 2. Complete records -/

/-- That an object has all fields of a record of trees, in order. -/
inductive FullRecord : Members → Prop
  | file {ms : Members} (h : ms.map Prod.fst = ["path", "fullname", "docstring", "body"]) :
      FullRecord ms
  | statement {kind : String} {ms : Members} (h : ms.map Prod.fst = Statement.fieldsOf kind) :
      FullRecord (("node", .string kind) :: ms)
  | block {ms : Members} (h : ms.map Prod.fst = Statement.blockFields) : FullRecord ms
  | argument {ms : Members} (h : ms.map Prod.fst = ["name", "kind", "pos_only", "is_self",
      "is_cls", "type", "unanalyzed_type", "initializer"]) : FullRecord ms
  | typeVar {ms : Members} (h : ms.map Prod.fst = ["name", "variance", "upper_bound"]) :
      FullRecord ms
  | importedName {ms : Members} (h : ms.map Prod.fst = ["name", "alias"]) : FullRecord ms
  | expression {kind : String} {ms : Members} (h : ms.map Prod.fst = Expression.fieldsOf kind) :
      FullRecord (("expr", .string kind) :: ms)
  | type {kind : String} {ms : Members} (h : ms.map Prod.fst = Annotation.fieldsOf kind) :
      FullRecord (("kind", .string kind) :: ms)

/-- Whether every object in a value is a full record of trees. -/
inductive Complete : Json → Prop
  | null : Complete .null
  | bool (b : Bool) : Complete (.bool b)
  | int (n : Int) : Complete (.int n)
  | float (x : Binary64) : Complete (.float x)
  | string (s : String) : Complete (.string s)
  | array {items : List Json} (h : ∀ v ∈ items, Complete v) : Complete (.array items)
  | object {ms : Members} (hfields : FullRecord ms) (h : ∀ m ∈ ms, Complete m.2) :
      Complete (.object ms)

namespace Complete

attribute [simp] Complete.null Complete.bool Complete.int Complete.float Complete.string

@[simp] theorem array_iff {items : List Json} :
    Complete (.array items) ↔ ∀ v ∈ items, Complete v :=
  ⟨fun h => by cases h; assumption, .array⟩

theorem isReadable {v : Json} (h : v.Complete) : v.isReadable = true := by
  induction h with
  | null | bool | int | float | string => rfl
  | array _ ih => exact isReadable_array.2 ih
  | object _ _ ih => exact isReadable_object.2 ih

@[simp] theorem ofBinary64 (x : Binary64) : (Json.ofBinary64 x).Complete := by
  rw [Json.ofBinary64]
  split <;> simp

@[simp] theorem strings (l : List String) : (Json.strings l).Complete := by
  simp [Json.strings]

theorem ofOption {α : Type} {write : α → Json} (h : ∀ a, (write a).Complete) (o : Option α) :
    (Json.ofOption write o).Complete := by
  cases o with
  | none => exact .null
  | some a => exact h a

@[simp] theorem ofString (o : Option String) : (Json.ofOption .string o).Complete :=
  ofOption .string o

end Complete

end Json

open Json (Complete)

attribute [local simp] Json.ok_bind Json.asRecord_object Json.required_head
  Json.required_tail Json.optional_head Json.optional_tail Json.withDefault_head
  Json.withDefault_tail

/-! ## 3. Annotations -/

theorem Literal.complete_toJson (l : Literal) : l.toJson.Complete := by
  cases l <;> simp [toJson]

theorem Literal.ofJson_toJson_of_finite {l : Literal} (h : ∀ x ∈ l.doubles, x.isFinite = true) :
    ofJson l.toJson = .ok l := by
  rw [ofJson_toJson, written_eq_self_iff.2 h]

theorem AnyReason.ofJson_name (r : AnyReason) : ofJson (.string r.name) = .ok r := by
  cases r <;> rfl

namespace Annotation

mutual
theorem complete_toJson : (a : Annotation) → a.toJson.Complete
  | .any _ missing => .object (.type rfl) (by simp)
  | .none => .object (.type rfl) (by simp)
  | .inst _ args => .object (.type rfl) (by simpa using complete_listToJson args)
  | .union items => .object (.type rfl) (by simpa using complete_listToJson items)
  | .tuple items => .object (.type rfl) (by simpa using complete_listToJson items)
  | .callable parameters result =>
    .object (.type rfl)
      (by simpa [complete_toJson result] using complete_listToJson parameters)
  | .literal value => .object (.type rfl) (by simp [value.complete_toJson])
  | .typeVar _ _ bound => .object (.type rfl) (by simp [complete_boundToJson bound])
  | .unbound _ args => .object (.type rfl) (by simpa using complete_listToJson args)
  | .typeOf item => .object (.type rfl) (by simp [complete_toJson item])
  | .uninhabited => .object (.type rfl) (by simp)
  | .other _ => .object (.type rfl) (by simp)

theorem complete_listToJson : (l : List Annotation) → ∀ v ∈ listToJson l, v.Complete
  | [] => by simp [listToJson]
  | a :: l => by simpa [listToJson, complete_toJson a] using complete_listToJson l

theorem complete_boundToJson : (o : Option Annotation) → (boundToJson o).Complete
  | Option.none => .null
  | some a => complete_toJson a
end

theorem toJson_ne_null (a : Annotation) : a.toJson ≠ .null := by
  cases a <;> simp [toJson, tagged]

theorem depth_toJson_pos (a : Annotation) : 0 < a.toJson.depth := by
  cases a <;> exact Nat.succ_pos _

mutual
theorem ofJsonWithin_toJson : (a : Annotation) → (n : Nat) → a.toJson.depth ≤ n → a.IsFinite →
    ofJsonWithin n a.toJson = .ok a
  | a, 0, hn, _ => by
    have := depth_toJson_pos a
    omega
  | .any reason missing, n + 1, hn, h => by
    rw [toJson, tagged, ofJsonWithin, Json.asTagged_object (by simp)]
    simp [AnyReason.ofJson_name, Json.asOption_strings]
  | .none, n + 1, hn, h => by
    rw [toJson, tagged, ofJsonWithin, Json.asTagged_object (by simp)]
    rfl
  | .inst fullname args, n + 1, hn, h => by
    have hdepth : (Json.array (listToJson args)).depth < (toJson (.inst fullname args)).depth :=
      Json.depth_lt_of_mem "args" (by simp)
    have hargs := listWithin_toJson args n (by omega) (forall_mem_doublesIn.1 h)
    rw [toJson, tagged, ofJsonWithin, Json.asTagged_object (by simp)]
    simp [Json.asString, hargs]
  | .union items, n + 1, hn, h => by
    have hdepth : (Json.array (listToJson items)).depth < (toJson (.union items)).depth :=
      Json.depth_lt_of_mem "items" (by simp)
    have hitems := listWithin_toJson items n (by omega) (forall_mem_doublesIn.1 h)
    rw [toJson, tagged, ofJsonWithin, Json.asTagged_object (by simp)]
    simp [hitems]
  | .tuple items, n + 1, hn, h => by
    have hdepth : (Json.array (listToJson items)).depth < (toJson (.tuple items)).depth :=
      Json.depth_lt_of_mem "items" (by simp)
    have hitems := listWithin_toJson items n (by omega) (forall_mem_doublesIn.1 h)
    rw [toJson, tagged, ofJsonWithin, Json.asTagged_object (by simp)]
    simp [hitems]
  | .callable parameters result, n + 1, hn, h => by
    have hdepth : (Json.array (listToJson parameters)).depth
        < (toJson (.callable parameters result)).depth :=
      Json.depth_lt_of_mem "arg_types" (by simp)
    have hdepth' : result.toJson.depth < (toJson (.callable parameters result)).depth :=
      Json.depth_lt_of_mem "ret_type" (by simp)
    rw [IsFinite, doubles, List.forall_mem_append, forall_mem_doublesIn] at h
    have hparameters := listWithin_toJson parameters n (by omega) h.1
    have hresult := ofJsonWithin_toJson result n (by omega) h.2
    rw [toJson, tagged, ofJsonWithin, Json.asTagged_object (by simp)]
    simp [hparameters, hresult]
  | .literal value, n + 1, hn, h => by
    have hvalue := Literal.ofJson_toJson_of_finite h
    rw [toJson, tagged, ofJsonWithin, Json.asTagged_object (by simp)]
    simp [hvalue]
  | .typeVar name fullname bound, n + 1, hn, h => by
    have hdepth : (boundToJson bound).depth < (toJson (.typeVar name fullname bound)).depth :=
      Json.depth_lt_of_mem "upper_bound" (by simp)
    rw [IsFinite, doubles] at h
    have hbound := boundWithin_toJson bound n (by omega) (forall_mem_boundDoubles.1 h)
    rw [toJson, tagged, ofJsonWithin, Json.asTagged_object (by simp)]
    simp [Json.asString, hbound]
  | .unbound name args, n + 1, hn, h => by
    have hdepth : (Json.array (listToJson args)).depth < (toJson (.unbound name args)).depth :=
      Json.depth_lt_of_mem "args" (by simp)
    have hargs := listWithin_toJson args n (by omega) (forall_mem_doublesIn.1 h)
    rw [toJson, tagged, ofJsonWithin, Json.asTagged_object (by simp)]
    simp [Json.asString, hargs]
  | .typeOf item, n + 1, hn, h => by
    have hdepth : item.toJson.depth < (toJson (.typeOf item)).depth :=
      Json.depth_lt_of_mem "item" (by simp)
    have hitem := ofJsonWithin_toJson item n (by omega) h
    rw [toJson, tagged, ofJsonWithin, Json.asTagged_object (by simp)]
    simp [hitem]
  | .uninhabited, n + 1, hn, h => by
    rw [toJson, tagged, ofJsonWithin, Json.asTagged_object (by simp)]
    rfl
  | .other description, n + 1, hn, h => by
    rw [toJson, tagged, ofJsonWithin, Json.asTagged_object (by simp)]
    simp [Json.asString]

theorem listWithin_toJson : (l : List Annotation) → (n : Nat) →
    (Json.array (listToJson l)).depth ≤ n → (∀ a ∈ l, a.IsFinite) →
    Json.asList (ofJsonWithin n) (.array (listToJson l)) = .ok l
  | [], _, _, _ => rfl
  | a :: l, n, hn, h => by
    rw [listToJson, Json.depth_array, Json.depthItems_cons] at hn
    rw [List.forall_mem_cons] at h
    have ha := ofJsonWithin_toJson a n (by omega) h.1
    have hl := listWithin_toJson l n (by rw [Json.depth_array]; omega) h.2
    exact Json.asList_cons ha hl

theorem boundWithin_toJson : (o : Option Annotation) → (n : Nat) → (boundToJson o).depth ≤ n →
    (∀ a ∈ o, a.IsFinite) → Json.asOption (ofJsonWithin n) (boundToJson o) = .ok o
  | Option.none, _, _, _ => rfl
  | some a, n, hn, h => by
    rw [boundToJson] at hn ⊢
    rw [Json.asOption_of_ne_null a.toJson_ne_null, ofJsonWithin_toJson a n hn (h a rfl)]
    rfl
end

theorem ofJson_toJson {a : Annotation} (h : a.IsFinite) : ofJson a.toJson = .ok a := by
  rw [ofJson, Json.readable, if_pos a.complete_toJson.isReadable]
  exact ofJsonWithin_toJson a _ (Nat.le_refl _) h

theorem asOption_toJson {t : Option Annotation} (h : ∀ d ∈ Datum.ofType t, d.Sound) :
    Json.asOption ofJson (.ofOption toJson t) = .ok t := by
  rw [Datum.sound_ofType] at h
  exact Json.asOption_ofOption toJson_ne_null fun a ha => ofJson_toJson (h a ha)

theorem complete_ofOption (t : Option Annotation) : (Json.ofOption toJson t).Complete :=
  .ofOption complete_toJson t

end Annotation

/-! ## 4. Expressions -/

theorem Numeric.ofJson_toJson {n : Numeric} (h : ∀ d ∈ n.data, d.Sound) :
    ofJson n.toJson = .ok n := by
  cases n with
  | int n => rfl
  | float x =>
    have hx : x.isFinite = true := h (.double x) (by simp [data])
    rw [toJson, Json.ofBinary64, if_pos hx]
    rfl

theorem Numeric.complete_toJson (n : Numeric) : n.toJson.Complete := by
  cases n <;> simp [toJson]

namespace Expression

open Annotation (complete_ofOption)

mutual
theorem complete_toJson : (e : Expression) → e.toJson.Complete
  | .name _ _ t => .object (.expression rfl) (by simp [typeMember, complete_ofOption])
  | .member value _ t =>
    .object (.expression rfl) (by simp [typeMember, complete_ofOption, complete_toJson value])
  | .str _ => .object (.expression rfl) (by simp)
  | .int value => .object (.expression rfl) (by simp [value.complete_toJson])
  | .float _ => .object (.expression rfl) (by simp)
  | .tuple items => .object (.expression rfl) (by simpa using complete_listToJson items)
  | .list items => .object (.expression rfl) (by simpa using complete_listToJson items)
  | .call callee t =>
    .object (.expression rfl) (by simp [typeMember, complete_ofOption, complete_toJson callee])
  | .op _ left right t =>
    .object (.expression rfl)
      (by simp [typeMember, complete_ofOption, complete_toJson left, complete_toJson right])
  | .comparison _ => .object (.expression rfl) (by simp)
  | .unary _ operand t =>
    .object (.expression rfl) (by simp [typeMember, complete_ofOption, complete_toJson operand])
  | .conditional ifTrue ifFalse t =>
    .object (.expression rfl)
      (by simp [typeMember, complete_ofOption, complete_toJson ifTrue, complete_toJson ifFalse])
  | .other t => .object (.expression rfl) (by simp [typeMember, complete_ofOption])

theorem complete_listToJson : (l : List Expression) → ∀ v ∈ listToJson l, v.Complete
  | [] => by simp [listToJson]
  | e :: l => by simpa [listToJson, complete_toJson e] using complete_listToJson l
end

theorem toJson_ne_null (e : Expression) : e.toJson ≠ .null := by
  cases e <;> simp [toJson, tagged]

theorem depth_toJson_pos (e : Expression) : 0 < e.toJson.depth := by
  cases e <;> exact Nat.succ_pos _

theorem sound_dataIn {l : List Expression} :
    (∀ d ∈ dataIn l, d.Sound) ↔ ∀ e ∈ l, e.IsSound := by
  rw [dataIn_eq, List.forall_mem_flatMap]
  rfl

mutual
theorem ofJsonWithin_toJson : (e : Expression) → (n : Nat) → e.toJson.depth ≤ n → e.IsSound →
    ofJsonWithin n e.toJson = .ok e
  | e, 0, hn, _ => by
    have := depth_toJson_pos e
    omega
  | .name text fullname t, n + 1, hn, h => by
    have htype := Annotation.asOption_toJson h
    rw [toJson, tagged, ofJsonWithin, Json.asTagged_object (by simp [typeMember])]
    simp [typeMember, Json.asString, Json.asOption_strings, htype]
  | .member value text t, n + 1, hn, h => by
    have hdepth : value.toJson.depth < (toJson (.member value text t)).depth :=
      Json.depth_lt_of_mem "value" (by simp)
    rw [IsSound, data, List.forall_mem_append] at h
    have hvalue := ofJsonWithin_toJson value n (by omega) h.1
    have htype := Annotation.asOption_toJson h.2
    rw [toJson, tagged, ofJsonWithin, Json.asTagged_object (by simp [typeMember])]
    simp [typeMember, Json.asString, hvalue, htype]
  | .str value, n + 1, hn, h => by
    rw [toJson, tagged, ofJsonWithin, Json.asTagged_object (by simp)]
    simp [Json.asString]
  | .int value, n + 1, hn, h => by
    have hvalue := Numeric.ofJson_toJson h
    rw [toJson, tagged, ofJsonWithin, Json.asTagged_object (by simp)]
    simp [hvalue]
  | .float value, n + 1, hn, h => by
    have hvalue : Json.asBinary64 (.ofBinary64 value) = .ok value :=
      Json.asBinary64_ofBinary64 (h (.double value) (by simp [data]))
    rw [toJson, tagged, ofJsonWithin, Json.asTagged_object (by simp)]
    simp [hvalue]
  | .tuple items, n + 1, hn, h => by
    have hdepth : (Json.array (listToJson items)).depth < (toJson (.tuple items)).depth :=
      Json.depth_lt_of_mem "items" (by simp)
    have hitems := listWithin_toJson items n (by omega) (sound_dataIn.1 h)
    rw [toJson, tagged, ofJsonWithin, Json.asTagged_object (by simp)]
    simp [hitems]
  | .list items, n + 1, hn, h => by
    have hdepth : (Json.array (listToJson items)).depth < (toJson (.list items)).depth :=
      Json.depth_lt_of_mem "items" (by simp)
    have hitems := listWithin_toJson items n (by omega) (sound_dataIn.1 h)
    rw [toJson, tagged, ofJsonWithin, Json.asTagged_object (by simp)]
    simp [hitems]
  | .call callee t, n + 1, hn, h => by
    have hdepth : callee.toJson.depth < (toJson (.call callee t)).depth :=
      Json.depth_lt_of_mem "callee" (by simp)
    rw [IsSound, data, List.forall_mem_append] at h
    have hcallee := ofJsonWithin_toJson callee n (by omega) h.1
    have htype := Annotation.asOption_toJson h.2
    rw [toJson, tagged, ofJsonWithin, Json.asTagged_object (by simp [typeMember])]
    simp [typeMember, hcallee, htype]
  | .op symbol left right t, n + 1, hn, h => by
    have hdepth : left.toJson.depth < (toJson (.op symbol left right t)).depth :=
      Json.depth_lt_of_mem "left" (by simp)
    have hdepth' : right.toJson.depth < (toJson (.op symbol left right t)).depth :=
      Json.depth_lt_of_mem "right" (by simp)
    rw [IsSound, data, List.forall_mem_append, List.forall_mem_append] at h
    have hleft := ofJsonWithin_toJson left n (by omega) h.1
    have hright := ofJsonWithin_toJson right n (by omega) h.2.1
    have htype := Annotation.asOption_toJson h.2.2
    rw [toJson, tagged, ofJsonWithin, Json.asTagged_object (by simp [typeMember])]
    simp [typeMember, Json.asString, hleft, hright, htype]
  | .comparison operators, n + 1, hn, h => by
    rw [toJson, tagged, ofJsonWithin, Json.asTagged_object (by simp)]
    simp [Json.asStrings_strings]
  | .unary symbol operand t, n + 1, hn, h => by
    have hdepth : operand.toJson.depth < (toJson (.unary symbol operand t)).depth :=
      Json.depth_lt_of_mem "operand" (by simp)
    rw [IsSound, data, List.forall_mem_append] at h
    have hoperand := ofJsonWithin_toJson operand n (by omega) h.1
    have htype := Annotation.asOption_toJson h.2
    rw [toJson, tagged, ofJsonWithin, Json.asTagged_object (by simp [typeMember])]
    simp [typeMember, Json.asString, hoperand, htype]
  | .conditional ifTrue ifFalse t, n + 1, hn, h => by
    have hdepth : ifTrue.toJson.depth < (toJson (.conditional ifTrue ifFalse t)).depth :=
      Json.depth_lt_of_mem "if_expr" (by simp)
    have hdepth' : ifFalse.toJson.depth < (toJson (.conditional ifTrue ifFalse t)).depth :=
      Json.depth_lt_of_mem "else_expr" (by simp)
    rw [IsSound, data, List.forall_mem_append, List.forall_mem_append] at h
    have hifTrue := ofJsonWithin_toJson ifTrue n (by omega) h.1
    have hifFalse := ofJsonWithin_toJson ifFalse n (by omega) h.2.1
    have htype := Annotation.asOption_toJson h.2.2
    rw [toJson, tagged, ofJsonWithin, Json.asTagged_object (by simp [typeMember])]
    simp [typeMember, hifTrue, hifFalse, htype]
  | .other t, n + 1, hn, h => by
    have htype := Annotation.asOption_toJson h
    rw [toJson, tagged, ofJsonWithin, Json.asTagged_object (by simp [typeMember])]
    simp [typeMember, htype]

theorem listWithin_toJson : (l : List Expression) → (n : Nat) →
    (Json.array (listToJson l)).depth ≤ n → (∀ e ∈ l, e.IsSound) →
    Json.asList (ofJsonWithin n) (.array (listToJson l)) = .ok l
  | [], _, _, _ => rfl
  | e :: l, n, hn, h => by
    rw [listToJson, Json.depth_array, Json.depthItems_cons] at hn
    rw [List.forall_mem_cons] at h
    have he := ofJsonWithin_toJson e n (by omega) h.1
    have hl := listWithin_toJson l n (by rw [Json.depth_array]; omega) h.2
    exact Json.asList_cons he hl
end

theorem ofJson_toJson {e : Expression} (h : e.IsSound) : ofJson e.toJson = .ok e := by
  rw [ofJson, Json.readable, if_pos e.complete_toJson.isReadable]
  exact ofJsonWithin_toJson e _ (Nat.le_refl _) h

theorem asOption_toJson {e : Option Expression} (h : ∀ d ∈ e.toList.flatMap data, d.Sound) :
    Json.asOption ofJson (.ofOption toJson e) = .ok e := by
  simp only [List.forall_mem_flatMap, Option.mem_toList] at h
  exact Json.asOption_ofOption toJson_ne_null fun a ha => ofJson_toJson (h a ha)

end Expression

/-! ## 5. Parts of statements -/

open Annotation (complete_ofOption)

theorem ArgumentKind.ofJson_name (reading : Json.Reading) (k : ArgumentKind) :
    ofJson reading (.string k.name) = .ok k := by
  cases reading <;> cases k <;> rfl

namespace TypeVarDef

theorem complete_toJson (t : TypeVarDef) : t.toJson.Complete :=
  .object (.typeVar rfl) (by simp [complete_ofOption])

theorem ofJson_toJson (reading : Json.Reading) {t : TypeVarDef} (h : ∀ d ∈ t.data, d.Sound) :
    ofJson reading t.toJson = .ok t := by
  have hbound := Annotation.asOption_toJson h
  simp [toJson, ofJson, Json.asString, Variance.ofJson_name, hbound]

end TypeVarDef

namespace Argument

theorem complete_toJson (a : Argument) : a.toJson.Complete :=
  .object (.argument rfl)
    (by simp [complete_ofOption, Complete.ofOption Expression.complete_toJson])

theorem ofJson_toJson (reading : Json.Reading) {a : Argument} (h : ∀ d ∈ a.data, d.Sound) :
    ofJson reading a.toJson = .ok a := by
  rw [data, List.forall_mem_append, List.forall_mem_append] at h
  have htype := Annotation.asOption_toJson h.1
  have hunanalyzed := Annotation.asOption_toJson h.2.1
  have hinitializer := Expression.asOption_toJson h.2.2
  simp [toJson, ofJson, Json.flag, Json.asString, Json.asBool, ArgumentKind.ofJson_name, htype,
    hunanalyzed, hinitializer]

end Argument

namespace ClassHead

variable {h : ClassHead}

theorem complete_members (h : ClassHead) {body : List Json} (hbody : ∀ v ∈ body, v.Complete) :
    ∀ m ∈ h.members body, m.2.Complete := by
  simpa [members, TypeVarDef.complete_toJson] using hbody

theorem ofMembers_members (reading : Json.Reading) (hh : ∀ d ∈ h.data, d.Sound) (tag : Json)
    (body : List Json) : ofMembers reading (("node", tag) :: h.members body) = .ok h := by
  rw [data, List.forall_mem_append, List.forall_mem_flatMap, List.forall_mem_singleton] at hh
  have htypeVars := Json.asList_of_mem fun t ht => TypeVarDef.ofJson_toJson reading (hh.1 t ht)
  have hline := Json.asWord_int hh.2
  simp [members, ofMembers, Json.asString, Json.asStrings_strings, Json.asOption_strings, htypeVars,
    hline]

theorem body_members {α : Type} {read : Json → Json.Decoded (List α)} (body : List Json) :
    Json.withDefault (h.members body) "body" [] read = read (.array body) := by
  simp [members]

end ClassHead

namespace FunctionHead

variable {h : FunctionHead}

theorem complete_members (h : FunctionHead) {body : List Json} (hbody : ∀ v ∈ body, v.Complete) :
    ∀ m ∈ h.members body, m.2.Complete := by
  simpa [members, Argument.complete_toJson, complete_ofOption] using hbody

theorem ofMembers_members (reading : Json.Reading) (hh : ∀ d ∈ h.data, d.Sound) (tag : Json)
    (body : List Json) : ofMembers reading (("node", tag) :: h.members body) = .ok h := by
  rw [data, List.forall_mem_append, List.forall_mem_append, List.forall_mem_append,
    List.forall_mem_flatMap, List.forall_mem_singleton] at hh
  obtain ⟨harguments, hreturnType, hunanalyzed, hline⟩ := hh
  have harguments := Json.asList_of_mem fun a ha => Argument.ofJson_toJson reading (harguments a ha)
  have hreturnType := Annotation.asOption_toJson hreturnType
  have hunanalyzed := Annotation.asOption_toJson hunanalyzed
  have hline := Json.asWord_int hline
  simp [members, ofMembers, Json.flag, Json.asString, Json.asBool, Json.asStrings_strings,
    Json.asOption_strings, harguments, hreturnType, hunanalyzed, hline]

theorem body_members {α : Type} {read : Json → Json.Decoded (List α)} (body : List Json) :
    Json.withDefault (h.members body) "body" [] read = read (.array body) := by
  simp [members]

end FunctionHead

namespace Assignment

theorem complete_members (a : Assignment) : ∀ m ∈ a.members, m.2.Complete := by
  simp [members, complete_ofOption, Complete.ofOption Expression.complete_toJson,
    Expression.complete_toJson]

theorem ofMembers_members {a : Assignment} (h : ∀ d ∈ a.data, d.Sound) (tag : Json) :
    ofMembers (("node", tag) :: a.members) = .ok a := by
  rw [data, List.forall_mem_append, List.forall_mem_append, List.forall_mem_append,
    List.forall_mem_append, List.forall_mem_singleton, List.forall_mem_flatMap] at h
  obtain ⟨htargets, hvalue, htype, hunanalyzed, hline⟩ := h
  have htargets := Json.asList_of_mem fun e he => Expression.ofJson_toJson (htargets e he)
  have hvalue := Expression.asOption_toJson hvalue
  have htype := Annotation.asOption_toJson htype
  have hunanalyzed := Annotation.asOption_toJson hunanalyzed
  have hline := Json.asWord_int hline
  simp [members, ofMembers, htargets, hvalue, htype, hunanalyzed, hline]

end Assignment

namespace ImportedName

theorem complete_toJson (i : ImportedName) : i.toJson.Complete :=
  .object (.importedName rfl) (by simp)

theorem ofJson_toJson (i : ImportedName) : ofJson i.toJson = .ok i := by
  simp [toJson, ofJson, Json.asString, Json.asOption_strings]

end ImportedName

namespace ImportFrom

def members (i : ImportFrom) : Json.Members :=
  [("module", .string i.module), ("relative", .int i.relative),
    ("names", .array (i.names.map ImportedName.toJson))]

theorem ofMembers_members {i : ImportFrom} (h : i.relative < 0x100000000) (tag : Json) :
    ofMembers (("node", tag) :: i.members) = .ok i := by
  have hrelative := Json.asWord_int h
  have hnames := Json.asList_of_reads ImportedName.ofJson_toJson i.names
  simp [members, ofMembers, Json.asString, hrelative, hnames]

end ImportFrom

namespace ImportAll

def members (i : ImportAll) : Json.Members :=
  [("module", .string i.module), ("relative", .int i.relative)]

theorem ofMembers_members {i : ImportAll} (h : i.relative < 0x100000000) (tag : Json) :
    ofMembers (("node", tag) :: i.members) = .ok i := by
  have hrelative := Json.asWord_int h
  simp [members, ofMembers, Json.asString, hrelative]

end ImportAll

/-! ## 6. Statements -/

namespace Statement

theorem fieldsOf_blockKind (k : BlockKind) : fieldsOf k.name = blockFields := by
  cases k <;> rfl

mutual
theorem complete_toJson : (s : Statement) → s.toJson.Complete
  | .classDef head body =>
    .object (.statement rfl)
      (List.forall_mem_cons.2 ⟨.string _, head.complete_members (complete_listToJson body)⟩)
  | .funcDef head body =>
    .object (.statement rfl)
      (List.forall_mem_cons.2 ⟨.string _, head.complete_members (complete_listToJson body)⟩)
  | .assignment a =>
    .object (.statement rfl) (List.forall_mem_cons.2 ⟨.string _, a.complete_members⟩)
  | .importNames _ => .object (.statement rfl) (by simp [ImportedName.complete_toJson])
  | .importFrom _ => .object (.statement rfl) (by simp [ImportedName.complete_toJson])
  | .importAll _ => .object (.statement rfl) (by simp)
  | .returned value =>
    .object (.statement rfl) (by simp [Complete.ofOption Expression.complete_toJson])
  | .block kind (.mk body orelse) =>
    .object (.statement (fieldsOf_blockKind kind).symm)
      (List.forall_mem_cons.2 ⟨.string _, complete_blockMembers (.mk body orelse)⟩)
  | .guarded body handlers orelse finalBody =>
    .object (.statement rfl) (by
      have hbody := complete_listToJson body
      have hhandlers := complete_blocksToJson handlers
      have horelse := complete_listToJson orelse
      have hfinalBody := complete_listToJson finalBody
      simp only [List.forall_mem_cons, Complete.array_iff]
      exact ⟨.string _, hbody, hhandlers, horelse, hfinalBody, by simp⟩)
  | .expression e => .object (.statement rfl) (by simp [e.complete_toJson])
  | .pass => .object (.statement rfl) (by simp)
  | .other => .object (.statement rfl) (by simp)

theorem complete_listToJson : (l : List Statement) → ∀ v ∈ listToJson l, v.Complete
  | [] => by simp [listToJson]
  | s :: l => by simpa [listToJson, complete_toJson s] using complete_listToJson l

theorem complete_blockMembers : (b : Block) → ∀ m ∈ blockMembers b, m.2.Complete
  | .mk body orelse => by
    have hbody := complete_listToJson body
    have horelse := complete_listToJson orelse
    simp only [blockMembers, List.forall_mem_cons, Complete.array_iff]
    exact ⟨hbody, horelse, by simp⟩

theorem complete_blocksToJson : (l : List Block) → ∀ v ∈ blocksToJson l, v.Complete
  | [] => by simp [blocksToJson]
  | .mk body orelse :: l => by
    have hblock : (Json.object (blockMembers (.mk body orelse))).Complete :=
      .object (.block rfl) (complete_blockMembers (.mk body orelse))
    simpa [blocksToJson, hblock] using complete_blocksToJson l
end

theorem depth_toJson_pos (s : Statement) : 0 < s.toJson.depth := by
  cases s <;> exact Nat.succ_pos _

theorem ofJsonWithin_importFrom {n : Nat} {ms : Json.Members} (h : Json.Lacks ms "node") :
    ofJsonWithin (n + 1) (tagged "import_from" ms)
      = .importFrom <$> ImportFrom.ofMembers (("node", .string "import_from") :: ms) := by
  rw [tagged, ofJsonWithin, Json.asTagged_object h]
  rfl

theorem ofJsonWithin_importAll {n : Nat} {ms : Json.Members} (h : Json.Lacks ms "node") :
    ofJsonWithin (n + 1) (tagged "import_all" ms)
      = .importAll <$> ImportAll.ofMembers (("node", .string "import_all") :: ms) := by
  rw [tagged, ofJsonWithin, Json.asTagged_object h]
  rfl

theorem blockOf_tail {read : Json → Json.Decoded Statement} {tag : Json} {m : Json.Members} :
    blockOf read (("node", tag) :: m) = blockOf read m := by
  simp [blockOf]

mutual
theorem ofJsonWithin_toJson : (s : Statement) → (n : Nat) → s.toJson.depth ≤ n → s.IsSound →
    ofJsonWithin n s.toJson = .ok s
  | s, 0, hn, _ => by
    have := depth_toJson_pos s
    omega
  | .classDef head body, n + 1, hn, h => by
    have hdepth : (Json.array (listToJson body)).depth < (toJson (.classDef head body)).depth :=
      Json.depth_lt_of_mem "body" (by simp [ClassHead.members])
    rw [IsSound, data, List.forall_mem_append, sound_dataIn] at h
    have hhead := ClassHead.ofMembers_members .held h.1
    have hbody := listWithin_toJson body n (by omega) h.2
    rw [toJson, tagged, ofJsonWithin, Json.asTagged_object (by simp [ClassHead.members])]
    simp [hhead, ClassHead.body_members, hbody]
  | .funcDef head body, n + 1, hn, h => by
    have hdepth : (Json.array (listToJson body)).depth < (toJson (.funcDef head body)).depth :=
      Json.depth_lt_of_mem "body" (by simp [FunctionHead.members])
    rw [IsSound, data, List.forall_mem_append, sound_dataIn] at h
    have hhead := FunctionHead.ofMembers_members .held h.1
    have hbody := listWithin_toJson body n (by omega) h.2
    rw [toJson, tagged, ofJsonWithin, Json.asTagged_object (by simp [FunctionHead.members])]
    simp [hhead, FunctionHead.body_members, hbody]
  | .assignment a, n + 1, hn, h => by
    have ha := Assignment.ofMembers_members h
    rw [toJson, tagged, ofJsonWithin, Json.asTagged_object (by simp [Assignment.members])]
    simp [ha]
  | .importNames names, n + 1, hn, h => by
    have hnames := Json.asList_of_reads ImportedName.ofJson_toJson names
    rw [toJson, tagged, ofJsonWithin, Json.asTagged_object (by simp)]
    simp [hnames]
  | .importFrom i, n + 1, hn, h => by
    have hword : i.relative < 0x100000000 := by simpa [IsSound, data, Datum.Sound] using h
    rw [toJson, ofJsonWithin_importFrom (by simp), ← ImportFrom.members,
      ImportFrom.ofMembers_members hword, Except.map_ok]
  | .importAll i, n + 1, hn, h => by
    have hword : i.relative < 0x100000000 := by simpa [IsSound, data, Datum.Sound] using h
    rw [toJson, ofJsonWithin_importAll (by simp), ← ImportAll.members,
      ImportAll.ofMembers_members hword, Except.map_ok]
  | .returned value, n + 1, hn, h => by
    have hvalue := Expression.asOption_toJson h
    rw [toJson, tagged, ofJsonWithin, Json.asTagged_object (by simp)]
    simp [hvalue]
  | .block kind (.mk body orelse), n + 1, hn, h => by
    rw [toJson, tagged, Json.depth, Json.depthMembers_cons] at hn
    have hb := blockWithin_toJson (.mk body orelse) n (by omega) h
    rw [toJson, tagged, ofJsonWithin, Json.asTagged_object (by simp [blockMembers])]
    cases kind <;> simp [BlockKind.name, blockOf_tail, hb]
  | .guarded body handlers orelse finalBody, n + 1, hn, h => by
    simp only [toJson, tagged, Json.depth, Json.depthMembers_cons] at hn
    rw [IsSound, data, List.forall_mem_append, List.forall_mem_append, List.forall_mem_append,
      sound_dataIn, sound_dataIn, sound_dataIn] at h
    have hbody := listWithin_toJson body n (by rw [Json.depth_array]; omega) h.1
    have hhandlers := blocksWithin_toJson handlers n (by omega) h.2.1
    have horelse := listWithin_toJson orelse n (by rw [Json.depth_array]; omega) h.2.2.1
    have hfinalBody := listWithin_toJson finalBody n (by rw [Json.depth_array]; omega) h.2.2.2
    rw [toJson, tagged, ofJsonWithin, Json.asTagged_object (by simp)]
    simp [hbody, hhandlers, horelse, hfinalBody]
  | .expression e, n + 1, hn, h => by
    have he := Expression.ofJson_toJson h
    rw [toJson, tagged, ofJsonWithin, Json.asTagged_object (by simp)]
    simp [he]
  | .pass, n + 1, hn, h => by
    rw [toJson, tagged, ofJsonWithin, Json.asTagged_object (by simp)]
    rfl
  | .other, n + 1, hn, h => by
    rw [toJson, tagged, ofJsonWithin, Json.asTagged_object (by simp)]
    rfl

theorem listWithin_toJson : (l : List Statement) → (n : Nat) →
    (Json.array (listToJson l)).depth ≤ n → (∀ s ∈ l, s.IsSound) →
    Json.asList (ofJsonWithin n) (.array (listToJson l)) = .ok l
  | [], _, _, _ => rfl
  | s :: l, n, hn, h => by
    rw [listToJson, Json.depth_array, Json.depthItems_cons] at hn
    rw [List.forall_mem_cons] at h
    have hs := ofJsonWithin_toJson s n (by omega) h.1
    have hl := listWithin_toJson l n (by rw [Json.depth_array]; omega) h.2
    exact Json.asList_cons hs hl

theorem blockWithin_toJson : (b : Block) → (n : Nat) → Json.depthMembers (blockMembers b) ≤ n →
    (∀ d ∈ blockData b, d.Sound) → blockOf (ofJsonWithin n) (blockMembers b) = .ok b
  | .mk body orelse, n, hn, h => by
    rw [blockMembers, Json.depthMembers_cons, Json.depthMembers_cons] at hn
    rw [blockData, List.forall_mem_append, sound_dataIn, sound_dataIn] at h
    have hbody := listWithin_toJson body n (by omega) h.1
    have horelse := listWithin_toJson orelse n (by omega) h.2
    simp [blockOf, blockMembers, hbody, horelse]

theorem blocksWithin_toJson : (l : List Block) → (n : Nat) →
    Json.depthItems (blocksToJson l) ≤ n → (∀ d ∈ blocksData l, d.Sound) →
    Json.asList (fun v => v.asRecord blockFields >>= blockOf (ofJsonWithin n))
      (.array (blocksToJson l)) = .ok l
  | [], _, _, _ => rfl
  | b :: l, n, hn, h => by
    rw [blocksToJson, Json.depthItems_cons, Json.depth] at hn
    rw [blocksData, List.forall_mem_append] at h
    have hb := blockWithin_toJson b n (by omega) h.1
    have hl := blocksWithin_toJson l n (by omega) h.2
    exact Json.asList_cons hb hl
end

theorem ofJson_toJson {s : Statement} (h : s.IsSound) : ofJson s.toJson = .ok s := by
  rw [ofJson, Json.readable, if_pos s.complete_toJson.isReadable]
  exact ofJsonWithin_toJson s _ (Nat.le_refl _) h

theorem listToJson_eq (l : List Statement) : listToJson l = l.map toJson := by
  induction l with
  | nil => rfl
  | cons s l ih => rw [listToJson, ih, List.map_cons]

end Statement

/-! ## 7. Files -/

namespace SourceFile

theorem complete_toJson (f : SourceFile) : f.toJson.Complete := by
  refine .object (.file rfl) ?_
  simpa using Statement.complete_listToJson f.body

theorem ofJson_toJson {f : SourceFile} (h : f.IsSound) : ofJson f.toJson = .ok f := by
  have hbody :
      Json.asList Statement.ofJson (.array (Statement.listToJson f.body)) = .ok f.body := by
    rw [Statement.listToJson_eq]
    exact Json.asList_of_mem fun s hs => Statement.ofJson_toJson (Statement.sound_dataIn.1 h s hs)
  simp [toJson, ofJson, Json.asString, Json.asOption_strings, hbody]

theorem parse_of_json {text origin : String} {v : Json} {f : SourceFile}
    (htext : Json.parse text = .ok v) (hv : ofJson v = .ok f) : parse text origin = .ok f := by
  rw [parse, htext, Json.ok_bind, hv]

end SourceFile

/-- **Program trees lose nothing in JSON.**  A tree that was read from a text is written completely,
so that whatever was absent and took a default is written out, and what is written of it is read as
the same tree, on its own or from any text that holds it. -/
theorem reread_tree {text origin : String} {f : SourceFile}
    (h : SourceFile.parse text origin = .ok f) :
    f.toJson.Complete ∧ SourceFile.ofJson f.toJson = .ok f
      ∧ ∀ again place, Json.parse again = .ok f.toJson → SourceFile.parse again place = .ok f := by
  have hf := SourceFile.ofJson_toJson (SourceFile.sound_of_parse h)
  exact ⟨f.complete_toJson, hf, fun again place hagain => SourceFile.parse_of_json hagain hf⟩

namespace Sample

/-- A tree in which almost all that may be absent is. -/
def sparseTree : Json :=
  .object [("path", .string "m.py"), ("fullname", .string "m"),
    ("body", .array [
      .object [("node", .string "class_def"), ("name", .string "C"), ("fullname", .string "m.C")],
      .object [("node", .string "if"), ("body", .array [
        .object [("node", .string "expression"), ("expr", .object [("expr", .string "float"),
          ("value", .int 1)])]])]])]

def sparseFile : SourceFile where
  path := "m.py"
  fullname := "m"
  docstring := none
  body :=
    [.classDef ⟨"C", "m.C", [], [], [], [], none, 0⟩ [],
      .block .cond (.mk [.expression (.float ⟨0x3ff0000000000000⟩)] [])]

theorem sparse_tree_filled :
    SourceFile.parse (sparseTree.pretty ++ "\n") "m.json" = .ok sparseFile
      ∧ sparseFile.toJson.Complete ∧ SourceFile.ofJson sparseFile.toJson = .ok sparseFile := by
  have htext : Json.parse (sparseTree.pretty ++ "\n") = .ok sparseTree := by
    have hone : (Json.int 1).Faithful := by
      rw [Json.Faithful]
      decide
    exact Json.parse_pretty_of_faithful (by simp [sparseTree, hone]) (by decide)
  have hfile : SourceFile.ofJson sparseTree = .ok sparseFile := rfl
  have hparse : SourceFile.parse (sparseTree.pretty ++ "\n") "m.json" = .ok sparseFile :=
    SourceFile.parse_of_json htext hfile
  obtain ⟨hcomplete, hagain, -⟩ := reread_tree hparse
  exact ⟨hparse, hcomplete, hagain⟩

end Sample

end ApiSurface
