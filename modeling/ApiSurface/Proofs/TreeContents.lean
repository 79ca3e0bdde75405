import ApiSurface.Proofs.ReadNumbers
import ApiSurface.Proofs.TypeCodec
import ApiSurface.Tree.Load
/-!
# What a tree holds

Names and texts in a tree are free; its numbers are not, if the tree was read from data.  `data`
lists what in a tree holds numbers: the annotations, whose literals may be doubles, the doubles and
integers of its expressions, and the numbers of lines and of leading dots.  In a tree that was read,
all of them are sound: the doubles are finite, the integers have sixty-four bits and the other
numbers thirty-two (`sound_of_parse`).

`Yields` says what a reader gives if it gives something, with one rule for each of the small
readers that records are read with.
-/

namespace ApiSurface

/-! ## 1. Contents -/

namespace Annotation

mutual
/-- The doubles in an annotation. -/
def doubles : Annotation → List Binary64
  | .inst _ args => doublesIn args
  | .union items => doublesIn items
  | .tuple items => doublesIn items
  | .callable parameters result => doublesIn parameters ++ result.doubles
  | .literal value => value.doubles
  | .typeVar _ _ bound => boundDoubles bound
  | .unbound _ args => doublesIn args
  | .typeOf item => item.doubles
  | .any .. | .none | .uninhabited | .other _ => []

def doublesIn : List Annotation → List Binary64
  | [] => []
  | a :: more => a.doubles ++ doublesIn more

def boundDoubles : Option Annotation → List Binary64
  | Option.none => []
  | some a => a.doubles
end

def IsFinite (a : Annotation) : Prop := ∀ x ∈ a.doubles, x.isFinite = true

theorem forall_mem_doublesIn {p : Binary64 → Prop} {l : List Annotation} :
    (∀ x ∈ doublesIn l, p x) ↔ ∀ a ∈ l, ∀ x ∈ a.doubles, p x := by
  induction l with
  | nil => simp [doublesIn]
  | cons a l ih => rw [doublesIn, List.forall_mem_append, ih, List.forall_mem_cons]

theorem forall_mem_boundDoubles {p : Binary64 → Prop} {o : Option Annotation} :
    (∀ x ∈ boundDoubles o, p x) ↔ ∀ a ∈ o, ∀ x ∈ a.doubles, p x := by
  cases o <;> simp [boundDoubles]

end Annotation

/-- Something in a tree that holds numbers. -/
inductive Datum
  | type (a : Annotation)
  /-- A double in an expression. -/
  | double (x : Binary64)
  /-- An integer in an expression. -/
  | integer (n : Int)
  /-- The number of a line or of leading dots. -/
  | word (n : Nat)

namespace Datum

/-- Whether reading can give it. -/
def Sound : Datum → Prop
  | .type a => a.IsFinite
  | .double x => x.isFinite = true
  | .integer n => -0x8000000000000000 ≤ n ∧ n ≤ Numeral.largest
  | .word n => n < 0x100000000

def type? : Datum → Option Annotation
  | .type a => some a
  | _ => none

/-- The annotation that may stand somewhere. -/
def ofType (t : Option Annotation) : List Datum := t.toList.map .type

theorem sound_ofType {t : Option Annotation} :
    (∀ d ∈ ofType t, d.Sound) ↔ ∀ a ∈ t, a.IsFinite := by
  cases t <;> simp [ofType, Sound]

end Datum

open Datum (ofType)

def Numeric.data : Numeric → List Datum
  | .int n => [.integer n]
  | .float x => [.double x]

namespace Expression

mutual
def data : Expression → List Datum
  | .name _ _ t => ofType t
  | .member value _ t => value.data ++ ofType t
  | .str _ => []
  | .int n => n.data
  | .float x => [.double x]
  | .tuple items => dataIn items
  | .list items => dataIn items
  | .call callee t => callee.data ++ ofType t
  | .op _ left right t => left.data ++ (right.data ++ ofType t)
  | .comparison _ => []
  | .unary _ operand t => operand.data ++ ofType t
  | .conditional ifTrue ifFalse t => ifTrue.data ++ (ifFalse.data ++ ofType t)
  | .other t => ofType t

def dataIn : List Expression → List Datum
  | [] => []
  | e :: more => e.data ++ dataIn more
end

theorem dataIn_eq (l : List Expression) : dataIn l = l.flatMap data := by
  induction l with
  | nil => rfl
  | cons e l ih => rw [dataIn, ih, List.flatMap_cons]

end Expression

def TypeVarDef.data (t : TypeVarDef) : List Datum := ofType t.upperBound

def Argument.data (a : Argument) : List Datum :=
  ofType a.type ++ (ofType a.unanalyzedType ++ a.initializer.toList.flatMap Expression.data)

def ClassHead.data (h : ClassHead) : List Datum :=
  h.typeVars.flatMap TypeVarDef.data ++ [.word h.line]

def FunctionHead.data (h : FunctionHead) : List Datum :=
  h.arguments.flatMap Argument.data
    ++ (ofType h.returnType ++ (ofType h.unanalyzedReturnType ++ [.word h.line]))

def Assignment.data (a : Assignment) : List Datum :=
  a.targets.flatMap Expression.data ++ (a.value.toList.flatMap Expression.data
    ++ (ofType a.type ++ (ofType a.unanalyzedType ++ [.word a.line])))

namespace Statement

mutual
def data : Statement → List Datum
  | .classDef head body => head.data ++ dataIn body
  | .funcDef head body => head.data ++ dataIn body
  | .assignment a => a.data
  | .importNames _ => []
  | .importFrom i => [.word i.relative]
  | .importAll i => [.word i.relative]
  | .returned value => value.toList.flatMap Expression.data
  | .block _ b => blockData b
  | .guarded body handlers orelse finalBody =>
    dataIn body ++ (blocksData handlers ++ (dataIn orelse ++ dataIn finalBody))
  | .expression e => e.data
  | .pass => []
  | .other => []

def dataIn : List Statement → List Datum
  | [] => []
  | s :: more => s.data ++ dataIn more

def blockData : Block → List Datum
  | .mk body orelse => dataIn body ++ dataIn orelse

def blocksData : List Block → List Datum
  | [] => []
  | b :: more => blockData b ++ blocksData more
end

theorem dataIn_eq (l : List Statement) : dataIn l = l.flatMap data := by
  induction l with
  | nil => rfl
  | cons s l ih => rw [dataIn, ih, List.flatMap_cons]

theorem blocksData_eq (l : List Block) : blocksData l = l.flatMap blockData := by
  induction l with
  | nil => rfl
  | cons b l ih => rw [blocksData, ih, List.flatMap_cons]

end Statement

namespace SourceFile

def data (f : SourceFile) : List Datum := Statement.dataIn f.body

/-- All annotations in a file. -/
def annotations (f : SourceFile) : List Annotation := f.data.filterMap Datum.type?

/-- Whether reading can give what the file holds. -/
def IsSound (f : SourceFile) : Prop := ∀ d ∈ f.data, d.Sound

theorem IsSound.isFinite {f : SourceFile} (h : f.IsSound) {a : Annotation}
    (ha : a ∈ f.annotations) : a.IsFinite := by
  obtain ⟨d, hd, hda⟩ := List.mem_filterMap.1 ha
  cases d with
  | type b =>
    obtain rfl := Option.some.inj hda
    exact h _ hd
  | double | integer | word => cases hda

end SourceFile

/-! ## 2. What readers give -/

namespace Json

variable {α β : Type}

/-- That a reading, if it gives something, gives something with a property. -/
def Yields (p : α → Prop) (r : Decoded α) : Prop := ∀ a, r = .ok a → p a

namespace Yields

variable {p : α → Prop} {q : β → Prop} {r : Decoded α}

theorem ok {a : α} (h : p a) : Yields p (.ok a) := by
  rintro b ⟨⟩
  exact h

theorem pure {a : α} (h : p a) : Yields p (Pure.pure a) := ok h

theorem error (f : Fault) : Yields p (.error f) := by
  rintro a ⟨⟩

theorem throw (f : Fault) : Yields p (MonadExcept.throw f) := error f

theorem bind {g : α → Decoded β} (hr : Yields p r) (hg : ∀ a, p a → Yields q (g a)) :
    Yields q (r >>= g) := by
  intro b hb
  cases r with
  | error f => cases hb
  | ok a => exact hg a (hr a rfl) b hb

/-- A step whose result does not matter. -/
theorem after {g : α → Decoded β} (hg : ∀ a, Yields q (g a)) : Yields q (r >>= g) :=
  bind (p := fun _ => True) (fun _ _ => trivial) fun a _ => hg a

theorem map {g : α → β} (hr : Yields p r) (hg : ∀ a, p a → q (g a)) : Yields q (r.map g) := by
  intro b hb
  cases r with
  | error f => cases hb
  | ok a =>
    cases hb
    exact hg a (hr a rfl)

end Yields

theorem yields_mapM {p : α → Prop} {read : Json → Decoded α} {items : List Json}
    (h : ∀ v ∈ items, Yields p (read v)) : Yields (fun l => ∀ a ∈ l, p a) (items.mapM read) := by
  induction items with
  | nil => exact .pure (by simp)
  | cons v items ih =>
    rw [List.forall_mem_cons] at h
    rw [List.mapM_cons]
    refine .bind h.1 fun a ha => .bind (ih h.2) fun l hl => .pure ?_
    exact List.forall_mem_cons.2 ⟨ha, hl⟩

/-- Members whose values can be held. -/
def HeldMembers (m : Members) : Prop := ∀ e ∈ m, e.2.Held

section Readers

variable {p : α → Prop} {read : Json → Decoded α} {v : Json} {m : Members}

theorem Held.asList (hv : v.Held) (h : ∀ w, w.Held → Yields p (read w)) :
    Yields (fun l => ∀ a ∈ l, p a) (Json.asList read v) := by
  cases hv with
  | array hitems => exact yields_mapM fun w hw => h w (hitems w hw)
  | null | bool | int | float | string | object | unreadable => exact .error _

theorem Held.asOption (hv : v.Held) (h : ∀ w, w.Held → Yields p (read w)) :
    Yields (fun o => ∀ a ∈ o, p a) (Json.asOption read v) := by
  cases hv with
  | null => exact .ok (by simp)
  | _ => exact (h _ (by constructor <;> assumption)).map (by simp)

theorem Held.readable (hv : v.Held) : Yields Held v.readable := by
  rw [Json.readable]
  split
  · exact .ok hv
  · exact .error _

theorem Held.asTagged (hv : v.Held) (key : String) :
    Yields (fun t => t.2.Held) (v.asTagged key) := by
  cases hv with
  | object hm => exact .after fun _ => .pure (.object hm)
  | @array items hitems =>
    cases items with
    | nil => exact .error _
    | cons tag items => exact .after fun _ => .pure (.array (List.forall_mem_cons.1 hitems).2)
  | null | bool | int | float | string | unreadable => exact .error _

theorem Held.asRecord (hv : v.Held) (keys : List String) :
    Yields HeldMembers (v.asRecord keys) := by
  cases hv with
  | object hm => exact .ok hm
  | array hitems =>
    rw [Json.asRecord]
    split
    · exact .ok fun e he => hitems _ (List.of_mem_zip he).2
    · exact .error _
  | null | bool | int | float | string | unreadable => exact .error _

namespace HeldMembers

theorem member? (hm : HeldMembers m) (key : String) :
    Yields (fun o => ∀ w ∈ o, w.Held) (Json.member? m key) := by
  rw [Json.member?]
  split
  · exact .ok (by simp)
  · rename_i e he
    have hmem : e ∈ m := (List.mem_filter.1 (he ▸ List.mem_singleton_self e)).1
    exact .ok (by simpa using hm e hmem)
  · exact .error _

theorem required (hm : HeldMembers m) {key : String} (h : ∀ w, w.Held → Yields p (read w)) :
    Yields p (Json.required m key read) := by
  refine .bind (hm.member? key) fun o ho => ?_
  cases o with
  | none => exact .error _
  | some w => exact h w (ho w rfl)

theorem optional (hm : HeldMembers m) {key : String} (h : ∀ w, w.Held → Yields p (read w)) :
    Yields (fun o => ∀ a ∈ o, p a) (Json.optional m key read) := by
  refine .bind (hm.member? key) fun o ho => ?_
  cases o with
  | none => exact .ok (by simp)
  | some w => exact (ho w rfl).asOption h

theorem withDefault (hm : HeldMembers m) {key : String} {default : α} (hdefault : p default)
    (h : ∀ w, w.Held → Yields p (read w)) : Yields p (Json.withDefault m key default read) := by
  refine .bind (hm.member? key) fun o ho => ?_
  cases o with
  | none => exact .ok hdefault
  | some w => exact h w (ho w rfl)

/-- A list that may be absent. -/
theorem list (hm : HeldMembers m) {key : String} (h : ∀ w, w.Held → Yields p (read w)) :
    Yields (fun l => ∀ a ∈ l, p a) (Json.withDefault m key [] (Json.asList read)) :=
  hm.withDefault (by simp) fun _ hw => hw.asList h

end HeldMembers

end Readers

theorem yields_asWord (v : Json) : Yields (· < 0x100000000) v.asWord := by
  cases v with
  | int n =>
    rw [asWord]
    split
    · rename_i hn
      simp only [Bool.and_eq_true, decide_eq_true_eq] at hn
      exact .ok (by omega)
    · exact .error _
  | null | bool | float | string | array | object | unreadable => exact .error _

theorem HeldMembers.word {m : Members} (hm : HeldMembers m) {key : String} :
    Yields (· < 0x100000000) (Json.withDefault m key 0 asWord) :=
  hm.withDefault (by decide) fun w _ => yields_asWord w

theorem Held.asBinary64 {v : Json} (hv : v.Held) :
    Yields (fun x => x.isFinite = true) v.asBinary64 := by
  cases hv with
  | int hlow hhigh => exact .ok (Numeral.isFinite_ofInt hlow hhigh)
  | float hx => exact .ok hx
  | null | bool | string | array | object | unreadable => exact .error _

end Json

/-! ## 3. Annotations and expressions -/

open Json (Held Yields HeldMembers)

theorem Literal.yields_ofJson {v : Json} (hv : v.Held) :
    Yields (fun l => ∀ x ∈ l.doubles, x.isFinite = true) (ofJson v) := by
  cases hv with
  | int hlow hhigh =>
    refine .ok ?_
    split
    · simp [doubles]
    · simpa [doubles] using Numeral.isFinite_ofInt hlow hhigh
  | float hx => exact .ok (by simpa [doubles] using hx)
  | null | bool | string => exact .ok (by simp [doubles])
  | array | object | unreadable => exact .error _

theorem Numeric.yields_ofJson {v : Json} (hv : v.Held) :
    Yields (fun n => ∀ d ∈ n.data, d.Sound) (ofJson v) := by
  cases hv with
  | int hlow hhigh => exact .ok (by simpa [data, Datum.Sound] using ⟨hlow, hhigh⟩)
  | float hx => exact .ok (by simpa [data, Datum.Sound] using hx)
  | null | bool | string | array | object | unreadable => exact .error _

namespace Annotation

theorem isFinite_of_doublesIn {a : Annotation} {l : List Annotation} (ha : a.doubles = doublesIn l)
    (h : ∀ b ∈ l, b.IsFinite) : a.IsFinite := by
  rw [IsFinite, ha, forall_mem_doublesIn]
  exact h

theorem yields_ofJsonWithin (depth : Nat) {v : Json} (hv : v.Held) :
    Yields IsFinite (ofJsonWithin depth v) := by
  induction depth generalizing v with
  | zero => exact .error _
  | succ depth ih =>
    have hread : ∀ w, w.Held → Yields IsFinite (ofJsonWithin depth w) := fun _ hw => ih hw
    rw [ofJsonWithin]
    refine .bind (hv.asTagged "kind") ?_
    rintro ⟨kind, w⟩ hw
    refine .bind (Held.asRecord hw _) fun m hm => ?_
    dsimp only
    -- one case for each kind, in the order of the definition
    split
    · exact .after fun _ => .after fun _ => .pure (by simp [IsFinite, doubles])
    · exact .pure (by simp [IsFinite, doubles])
    · refine .after fun _ => .bind (hm.list hread) fun args hargs => .pure ?_
      exact isFinite_of_doublesIn rfl hargs
    · refine .bind (hm.required fun _ hw => hw.asList hread) fun items hitems => .pure ?_
      exact isFinite_of_doublesIn rfl hitems
    · refine .bind (hm.required fun _ hw => hw.asList hread) fun items hitems => .pure ?_
      exact isFinite_of_doublesIn rfl hitems
    · refine .bind (hm.list hread) fun parameters hparameters => ?_
      refine .bind (hm.required hread) fun result hresult => .pure ?_
      rw [IsFinite, doubles, List.forall_mem_append, forall_mem_doublesIn]
      exact ⟨hparameters, hresult⟩
    · exact .bind (hm.required fun _ hw => Literal.yields_ofJson hw) fun value hvalue =>
        .pure hvalue
    · refine .after fun _ => .after fun _ => .bind (hm.optional hread) fun bound hbound => .pure ?_
      rw [IsFinite, doubles, forall_mem_boundDoubles]
      exact hbound
    · refine .after fun _ => .bind (hm.list hread) fun args hargs => .pure ?_
      exact isFinite_of_doublesIn rfl hargs
    · exact .bind (hm.required hread) fun item hitem => .pure hitem
    · exact .pure (by simp [IsFinite, doubles])
    · exact .after fun _ => .pure (by simp [IsFinite, doubles])
    · exact .throw _

theorem yields_ofJson (v : Json) (hv : v.Held) : Yields IsFinite (ofJson v) :=
  .bind hv.readable fun _ hw => yields_ofJsonWithin _ hw

end Annotation

/-- The annotation under a key, as part of what a record holds. -/
theorem Json.HeldMembers.optionalType {m : Json.Members} (hm : HeldMembers m) (key : String) :
    Yields (fun t => ∀ d ∈ Datum.ofType t, d.Sound) (Json.optional m key Annotation.ofJson) := by
  simp only [Datum.sound_ofType]
  exact hm.optional Annotation.yields_ofJson

namespace Expression

/-- Whether reading can give what the expression holds. -/
def IsSound (e : Expression) : Prop := ∀ d ∈ e.data, d.Sound

theorem yields_ofJsonWithin (depth : Nat) {v : Json} (hv : v.Held) :
    Yields IsSound (ofJsonWithin depth v) := by
  induction depth generalizing v with
  | zero => exact .error _
  | succ depth ih =>
    have hread : ∀ w, w.Held → Yields IsSound (ofJsonWithin depth w) := fun _ hw => ih hw
    rw [ofJsonWithin]
    refine .bind (hv.asTagged "expr") ?_
    rintro ⟨kind, w⟩ hw
    refine .bind (Held.asRecord hw _) fun m hm => ?_
    have htype := hm.optionalType "type"
    dsimp only
    -- one case for each kind, in the order of the definition
    split
    · exact .after fun _ => .after fun _ => .bind htype fun t ht => .pure ht
    · refine .bind (hm.required hread) fun value hvalue => .after fun _ => ?_
      exact .bind htype fun t ht => .pure (List.forall_mem_append.2 ⟨hvalue, ht⟩)
    · exact .after fun _ => .pure (by simp [IsSound, data])
    · exact .bind (hm.required fun _ hw => Numeric.yields_ofJson hw) fun n hn => .pure hn
    · refine .bind (hm.required fun _ hw => hw.asBinary64) fun x hx => .pure ?_
      simpa [IsSound, data, Datum.Sound] using hx
    · refine .bind (hm.required fun _ hw => hw.asList hread) fun items hitems => .pure ?_
      rw [IsSound, data, dataIn_eq, List.forall_mem_flatMap]
      exact hitems
    · refine .bind (hm.required fun _ hw => hw.asList hread) fun items hitems => .pure ?_
      rw [IsSound, data, dataIn_eq, List.forall_mem_flatMap]
      exact hitems
    · refine .bind (hm.required hread) fun callee hcallee => ?_
      exact .bind htype fun t ht => .pure (List.forall_mem_append.2 ⟨hcallee, ht⟩)
    · refine .after fun _ => .bind (hm.required hread) fun left hleft => ?_
      refine .bind (hm.required hread) fun right hright => .bind htype fun t ht => .pure ?_
      exact List.forall_mem_append.2 ⟨hleft, List.forall_mem_append.2 ⟨hright, ht⟩⟩
    · exact .after fun _ => .pure (by simp [IsSound, data])
    · refine .after fun _ => .bind (hm.required hread) fun operand hoperand => ?_
      exact .bind htype fun t ht => .pure (List.forall_mem_append.2 ⟨hoperand, ht⟩)
    · refine .bind (hm.required hread) fun ifTrue hifTrue => ?_
      refine .bind (hm.required hread) fun ifFalse hifFalse => .bind htype fun t ht => .pure ?_
      exact List.forall_mem_append.2 ⟨hifTrue, List.forall_mem_append.2 ⟨hifFalse, ht⟩⟩
    · exact .bind htype fun t ht => .pure ht
    · exact .throw _

theorem yields_ofJson (v : Json) (hv : v.Held) : Yields IsSound (ofJson v) :=
  .bind hv.readable fun _ hw => yields_ofJsonWithin _ hw

end Expression

/-- The expression under a key, as part of what a record holds. -/
theorem Json.HeldMembers.optionalExpression {m : Json.Members} (hm : HeldMembers m)
    (key : String) : Yields (fun e => ∀ d ∈ e.toList.flatMap Expression.data, d.Sound)
      (Json.optional m key Expression.ofJson) := by
  simp only [List.forall_mem_flatMap, Option.mem_toList]
  exact hm.optional Expression.yields_ofJson

/-! ## 4. Statements -/

theorem TypeVarDef.yields_ofJson (reading : Json.Reading) (v : Json) (hv : v.Held) :
    Yields (fun t => ∀ d ∈ t.data, d.Sound) (ofJson reading v) := by
  refine .bind (hv.asRecord _) fun m hm => .after fun _ => .after fun _ => ?_
  exact .bind (hm.optionalType _) fun bound hbound => .pure hbound

theorem Argument.yields_ofJson (reading : Json.Reading) (v : Json) (hv : v.Held) :
    Yields (fun a => ∀ d ∈ a.data, d.Sound) (ofJson reading v) := by
  refine .bind (hv.asRecord _) fun m hm => ?_
  refine .after fun _ => .after fun _ => .after fun _ => .after fun _ => .after fun _ => ?_
  refine .bind (hm.optionalType _) fun type htype => ?_
  refine .bind (hm.optionalType _) fun unanalyzed hunanalyzed => ?_
  refine .bind (hm.optionalExpression _) fun initializer hinitializer => .pure ?_
  simp only [data, List.forall_mem_append]
  exact ⟨htype, hunanalyzed, hinitializer⟩

theorem ClassHead.yields_ofMembers (reading : Json.Reading) {m : Json.Members}
    (hm : HeldMembers m) : Yields (fun h => ∀ d ∈ h.data, d.Sound) (ofMembers reading m) := by
  refine .after fun _ => .after fun _ => .after fun _ => .after fun _ => ?_
  refine .bind (hm.list (TypeVarDef.yields_ofJson reading)) fun typeVars htypeVars => ?_
  refine .after fun _ => .after fun _ => .bind hm.word fun line hline => .pure ?_
  simp only [data, List.forall_mem_append, List.forall_mem_flatMap, List.forall_mem_singleton]
  exact ⟨htypeVars, hline⟩

theorem FunctionHead.yields_ofMembers (reading : Json.Reading) {m : Json.Members}
    (hm : HeldMembers m) : Yields (fun h => ∀ d ∈ h.data, d.Sound) (ofMembers reading m) := by
  refine .after fun _ => .after fun _ => ?_
  refine .bind (hm.list (Argument.yields_ofJson reading)) fun arguments harguments => ?_
  refine .bind (hm.optionalType _) fun returnType hreturnType => ?_
  refine .bind (hm.optionalType _) fun unanalyzed hunanalyzed => ?_
  refine .after fun _ => .after fun _ => .after fun _ => .after fun _ => .after fun _ => ?_
  refine .bind hm.word fun line hline => .pure ?_
  simp only [data, List.forall_mem_append, List.forall_mem_flatMap, List.forall_mem_singleton]
  exact ⟨harguments, hreturnType, hunanalyzed, hline⟩

theorem Assignment.yields_ofMembers {m : Json.Members} (hm : HeldMembers m) :
    Yields (fun a => ∀ d ∈ a.data, d.Sound) (ofMembers m) := by
  refine .bind (hm.required fun _ hw => hw.asList Expression.yields_ofJson)
    fun targets htargets => ?_
  refine .bind (hm.optionalExpression _) fun value hvalue => ?_
  refine .bind (hm.optionalType _) fun type htype => ?_
  refine .bind (hm.optionalType _) fun unanalyzed hunanalyzed => ?_
  refine .bind hm.word fun line hline => .pure ?_
  rw [data, List.forall_mem_append, List.forall_mem_append, List.forall_mem_append,
    List.forall_mem_append, List.forall_mem_singleton, List.forall_mem_flatMap]
  exact ⟨htargets, hvalue, htype, hunanalyzed, hline⟩

namespace Statement

/-- Whether reading can give what the statement holds. -/
def IsSound (s : Statement) : Prop := ∀ d ∈ s.data, d.Sound

theorem sound_dataIn {body : List Statement} :
    (∀ d ∈ dataIn body, d.Sound) ↔ ∀ s ∈ body, s.IsSound := by
  rw [dataIn_eq, List.forall_mem_flatMap]
  rfl

theorem yields_blockOf {read : Json → Json.Decoded Statement} {m : Json.Members}
    (hm : HeldMembers m) (hread : ∀ w, w.Held → Yields IsSound (read w)) :
    Yields (fun b => ∀ d ∈ blockData b, d.Sound) (blockOf read m) := by
  refine .bind (hm.list hread) fun body hbody => .bind (hm.list hread) fun orelse horelse => ?_
  refine .pure ?_
  rw [blockData, List.forall_mem_append, sound_dataIn, sound_dataIn]
  exact ⟨hbody, horelse⟩

theorem yields_ofJsonWithin (depth : Nat) {v : Json} (hv : v.Held) :
    Yields IsSound (ofJsonWithin depth v) := by
  induction depth generalizing v with
  | zero => exact .error _
  | succ depth ih =>
    have hread : ∀ w, w.Held → Yields IsSound (ofJsonWithin depth w) := fun _ hw => ih hw
    rw [ofJsonWithin]
    refine .bind (hv.asTagged "node") ?_
    rintro ⟨kind, w⟩ hw
    refine .bind (Held.asRecord hw _) fun m hm => ?_
    dsimp only
    -- one case for each kind, in the order of the definition
    split
    · refine .bind (ClassHead.yields_ofMembers .held hm) fun head hhead => ?_
      refine .bind (hm.list hread) fun body hbody => .pure ?_
      rw [IsSound, data, List.forall_mem_append, sound_dataIn]
      exact ⟨hhead, hbody⟩
    · refine .bind (FunctionHead.yields_ofMembers .held hm) fun head hhead => ?_
      refine .bind (hm.list hread) fun body hbody => .pure ?_
      rw [IsSound, data, List.forall_mem_append, sound_dataIn]
      exact ⟨hhead, hbody⟩
    · exact .bind (Assignment.yields_ofMembers hm) fun a ha => .pure ha
    · exact .after fun _ => .pure (by simp [IsSound, data])
    · refine .bind (p := fun i => i.relative < 0x100000000) ?_ fun i hi => .pure ?_
      · exact .after fun _ => .bind hm.word fun relative hrelative =>
          .after fun _ => .pure hrelative
      · simpa [IsSound, data, Datum.Sound] using hi
    · refine .bind (p := fun i => i.relative < 0x100000000) ?_ fun i hi => .pure ?_
      · exact .after fun _ => .bind hm.word fun relative hrelative => .pure hrelative
      · simpa [IsSound, data, Datum.Sound] using hi
    · exact .bind (hm.optionalExpression _) fun value hvalue => .pure hvalue
    · exact .bind (yields_blockOf hm hread) fun b hb => .pure hb
    · exact .bind (yields_blockOf hm hread) fun b hb => .pure hb
    · exact .bind (yields_blockOf hm hread) fun b hb => .pure hb
    · exact .bind (yields_blockOf hm hread) fun b hb => .pure hb
    · have hhandler : ∀ w : Json, w.Held → Yields (fun b => ∀ d ∈ blockData b, d.Sound)
          (w.asRecord blockFields >>= blockOf (ofJsonWithin depth)) := fun w hw =>
        .bind (Held.asRecord hw _) fun _ hm => yields_blockOf hm hread
      refine .bind (hm.list hread) fun body hbody => ?_
      refine .bind (hm.list hhandler) fun handlers hhandlers => ?_
      refine .bind (hm.list hread) fun orelse horelse => ?_
      refine .bind (hm.list hread) fun finalBody hfinalBody => .pure ?_
      rw [IsSound, data, List.forall_mem_append, List.forall_mem_append, List.forall_mem_append,
        sound_dataIn, sound_dataIn, sound_dataIn, blocksData_eq, List.forall_mem_flatMap]
      exact ⟨hbody, hhandlers, horelse, hfinalBody⟩
    · exact .bind (hm.required Expression.yields_ofJson) fun e he => .pure he
    · exact .pure (by simp [IsSound, data])
    · exact .pure (by simp [IsSound, data])
    · exact .throw _

theorem yields_ofJson (v : Json) (hv : v.Held) : Yields IsSound (ofJson v) :=
  .bind hv.readable fun _ hw => yields_ofJsonWithin _ hw

end Statement

namespace SourceFile

theorem yields_ofJson {v : Json} (hv : v.Held) : Yields IsSound (ofJson v) := by
  refine .bind (hv.asRecord _) fun m hm => .after fun _ => .after fun _ => .after fun _ => ?_
  refine .bind (hm.list Statement.yields_ofJson) fun body hbody => .pure ?_
  rw [IsSound, data, Statement.sound_dataIn]
  exact hbody

/-- What a tree holds that was read from a text is sound. -/
theorem sound_of_parse {text origin : String} {f : SourceFile} (h : parse text origin = .ok f) :
    f.IsSound := by
  rw [parse] at h
  split at h
  · rename_i g hg
    cases h
    cases hv : Json.parse text with
    | error fault =>
      rw [hv] at hg
      cases hg
    | ok v =>
      rw [hv] at hg
      exact yields_ofJson (Json.held_of_parse hv) _ hg
  · cases h

end SourceFile

end ApiSurface
