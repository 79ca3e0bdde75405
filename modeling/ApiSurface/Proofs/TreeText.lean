import ApiSurface.Proofs.TreeCodec
/-!
# Program trees as texts

What is written of a tree can also be printed, and read again from the text.  There two things may
go wrong that do not with the value itself.  The numeral of a double may be read as another double,
and brackets that are nested too deep are not read.  If the doubles in a tree are read back from
their numerals, the tree is read back from its text, unless it is nested too deep
(`SourceFile.parse_pretty_iff`).

Both happen to trees that were themselves read from a text.  Lists that were absent are written out,
and the brackets of an empty one count for the limit (`Sample.deepest_tree_not_reread`); and a
double may be read from a numeral that is not the one that is printed of it
(`Sample.tiny_not_reread`).
-/

namespace ApiSurface

/-! ## 1. Numbers that come back -/

namespace Datum

def doubles : Datum → List Binary64
  | .type a => a.doubles
  | .double x => [x]
  | .integer _ | .word _ => []

/-- Whether reading can give it, and gives it again from its text. -/
def Rereads (d : Datum) : Prop := d.Sound ∧ ∀ x ∈ d.doubles, x.Rereads

end Datum

namespace Json

theorem faithful_ofOption {α : Type} {write : α → Json} {o : Option α}
    (h : ∀ a ∈ o, (write a).Faithful) : (ofOption write o).Faithful := by
  cases o with
  | none => exact trivial
  | some a => exact h a rfl

@[simp] theorem faithful_ofString (o : Option String) : (ofOption .string o).Faithful :=
  faithful_ofOption fun _ _ => trivial

theorem faithful_word {n : Nat} (h : (Datum.word n).Rereads) : (Json.int n).Faithful := by
  have hn : n < 0x100000000 := h.1
  have hlargest : 0x100000000 ≤ Numeral.largest := by decide
  exact ⟨by omega, by omega⟩

theorem faithful_double {x : Binary64} (h : (Datum.double x).Rereads) :
    (ofBinary64 x).Faithful :=
  faithful_ofBinary64 fun _ => h.2 x (List.mem_singleton_self x)

end Json

/-! ## 2. Annotations and expressions -/

namespace Annotation

mutual
theorem faithful_toJson : (a : Annotation) → (∀ x ∈ a.doubles, x.Rereads) → a.toJson.Faithful
  | .any _ _, _ => by simp [toJson, tagged]
  | .none, _ => by simp [toJson, tagged]
  | .inst _ args, h => by simpa [toJson, tagged] using faithful_listToJson args h
  | .union items, h => by simpa [toJson, tagged] using faithful_listToJson items h
  | .tuple items, h => by simpa [toJson, tagged] using faithful_listToJson items h
  | .callable parameters result, h => by
    rw [doubles, List.forall_mem_append] at h
    simpa [toJson, tagged, faithful_toJson result h.2] using faithful_listToJson parameters h.1
  | .literal value, h => by
    simp [toJson, tagged, value.faithful_toJson fun x hx _ => h x hx]
  | .typeVar _ _ bound, h => by simp [toJson, tagged, faithful_boundToJson bound h]
  | .unbound _ args, h => by simpa [toJson, tagged] using faithful_listToJson args h
  | .typeOf item, h => by simp [toJson, tagged, faithful_toJson item h]
  | .uninhabited, _ => by simp [toJson, tagged]
  | .other _, _ => by simp [toJson, tagged]

theorem faithful_listToJson : (l : List Annotation) → (∀ x ∈ doublesIn l, x.Rereads) →
    ∀ v ∈ listToJson l, v.Faithful
  | [], _ => by simp [listToJson]
  | a :: l, h => by
    rw [doublesIn, List.forall_mem_append] at h
    simpa [listToJson, faithful_toJson a h.1] using faithful_listToJson l h.2

theorem faithful_boundToJson : (o : Option Annotation) → (∀ x ∈ boundDoubles o, x.Rereads) →
    (boundToJson o).Faithful
  | Option.none, _ => trivial
  | some a, h => faithful_toJson a h
end

theorem faithful_ofOption {t : Option Annotation} (h : ∀ d ∈ Datum.ofType t, d.Rereads) :
    (Json.ofOption toJson t).Faithful := by
  refine Json.faithful_ofOption fun a ha => faithful_toJson a ?_
  exact (h (.type a) (by simpa [Datum.ofType] using ha)).2

end Annotation

theorem Numeric.faithful_toJson {n : Numeric} (h : ∀ d ∈ n.data, d.Rereads) :
    n.toJson.Faithful := by
  cases n with
  | int n => exact (h (.integer n) (by simp [data])).1
  | float x => exact Json.faithful_double (h (.double x) (by simp [data]))

namespace Expression

open Annotation (faithful_ofOption)

mutual
theorem faithful_toJson : (e : Expression) → (∀ d ∈ e.data, d.Rereads) → e.toJson.Faithful
  | .name _ _ t, h => by simp [toJson, tagged, typeMember, faithful_ofOption h]
  | .member value _ t, h => by
    rw [data, List.forall_mem_append] at h
    simp [toJson, tagged, typeMember, faithful_ofOption h.2, faithful_toJson value h.1]
  | .str _, _ => by simp [toJson, tagged]
  | .int value, h => by simp [toJson, tagged, value.faithful_toJson h]
  | .float x, h => by
    simp [toJson, tagged, Json.faithful_double (h (.double x) (by simp [data]))]
  | .tuple items, h => by simpa [toJson, tagged] using faithful_listToJson items h
  | .list items, h => by simpa [toJson, tagged] using faithful_listToJson items h
  | .call callee t, h => by
    rw [data, List.forall_mem_append] at h
    simp [toJson, tagged, typeMember, faithful_ofOption h.2, faithful_toJson callee h.1]
  | .op _ left right t, h => by
    rw [data, List.forall_mem_append, List.forall_mem_append] at h
    simp [toJson, tagged, typeMember, faithful_ofOption h.2.2, faithful_toJson left h.1,
      faithful_toJson right h.2.1]
  | .comparison _, _ => by simp [toJson, tagged]
  | .unary _ operand t, h => by
    rw [data, List.forall_mem_append] at h
    simp [toJson, tagged, typeMember, faithful_ofOption h.2, faithful_toJson operand h.1]
  | .conditional ifTrue ifFalse t, h => by
    rw [data, List.forall_mem_append, List.forall_mem_append] at h
    simp [toJson, tagged, typeMember, faithful_ofOption h.2.2, faithful_toJson ifTrue h.1,
      faithful_toJson ifFalse h.2.1]
  | .other t, h => by simp [toJson, tagged, typeMember, faithful_ofOption h]

theorem faithful_listToJson : (l : List Expression) → (∀ d ∈ dataIn l, d.Rereads) →
    ∀ v ∈ listToJson l, v.Faithful
  | [], _ => by simp [listToJson]
  | e :: l, h => by
    rw [dataIn, List.forall_mem_append] at h
    simpa [listToJson, faithful_toJson e h.1] using faithful_listToJson l h.2
end

theorem faithful_option {e : Option Expression} (h : ∀ d ∈ e.toList.flatMap data, d.Rereads) :
    (Json.ofOption toJson e).Faithful := by
  refine Json.faithful_ofOption fun a ha => faithful_toJson a ?_
  cases ha
  simpa using h

end Expression

/-! ## 3. Statements and files -/

open Annotation (faithful_ofOption)

theorem TypeVarDef.faithful_toJson {t : TypeVarDef} (h : ∀ d ∈ t.data, d.Rereads) :
    t.toJson.Faithful := by
  simp [toJson, faithful_ofOption h]

theorem Argument.faithful_toJson {a : Argument} (h : ∀ d ∈ a.data, d.Rereads) :
    a.toJson.Faithful := by
  rw [data, List.forall_mem_append, List.forall_mem_append] at h
  simp [toJson, faithful_ofOption h.1, faithful_ofOption h.2.1, Expression.faithful_option h.2.2]

theorem ClassHead.faithful_members {h : ClassHead} {body : List Json}
    (hh : ∀ d ∈ h.data, d.Rereads) (hbody : ∀ v ∈ body, v.Faithful) :
    ∀ m ∈ h.members body, m.2.Faithful := by
  rw [data, List.forall_mem_append, List.forall_mem_flatMap, List.forall_mem_singleton] at hh
  have htypeVars := fun t ht => TypeVarDef.faithful_toJson (hh.1 t ht)
  simpa [members, Json.faithful_word hh.2] using ⟨htypeVars, hbody⟩

theorem FunctionHead.faithful_members {h : FunctionHead} {body : List Json}
    (hh : ∀ d ∈ h.data, d.Rereads) (hbody : ∀ v ∈ body, v.Faithful) :
    ∀ m ∈ h.members body, m.2.Faithful := by
  rw [data, List.forall_mem_append, List.forall_mem_append, List.forall_mem_append,
    List.forall_mem_flatMap, List.forall_mem_singleton] at hh
  obtain ⟨harguments, hreturnType, hunanalyzed, hline⟩ := hh
  have harguments := fun a ha => Argument.faithful_toJson (harguments a ha)
  simpa [members, faithful_ofOption hreturnType, faithful_ofOption hunanalyzed,
    Json.faithful_word hline] using ⟨harguments, hbody⟩

theorem Assignment.faithful_members {a : Assignment} (h : ∀ d ∈ a.data, d.Rereads) :
    ∀ m ∈ a.members, m.2.Faithful := by
  rw [data, List.forall_mem_append, List.forall_mem_append, List.forall_mem_append,
    List.forall_mem_append, List.forall_mem_singleton, List.forall_mem_flatMap] at h
  obtain ⟨htargets, hvalue, htype, hunanalyzed, hline⟩ := h
  have htargets := fun e he => Expression.faithful_toJson e (htargets e he)
  simpa [members, Expression.faithful_option hvalue, faithful_ofOption htype,
    faithful_ofOption hunanalyzed, Json.faithful_word hline] using htargets

theorem ImportedName.faithful_toJson (i : ImportedName) : i.toJson.Faithful := by
  simp [toJson]

namespace Statement

mutual
theorem faithful_toJson : (s : Statement) → (∀ d ∈ s.data, d.Rereads) → s.toJson.Faithful
  | .classDef head body, h => by
    rw [data, List.forall_mem_append] at h
    have hmembers := ClassHead.faithful_members h.1 (faithful_listToJson body h.2)
    simpa [toJson, tagged] using hmembers
  | .funcDef head body, h => by
    rw [data, List.forall_mem_append] at h
    have hmembers := FunctionHead.faithful_members h.1 (faithful_listToJson body h.2)
    simpa [toJson, tagged] using hmembers
  | .assignment a, h => by simpa [toJson, tagged] using Assignment.faithful_members h
  | .importNames _, _ => by simp [toJson, tagged, ImportedName.faithful_toJson]
  | .importFrom i, h => by
    have hrelative := Json.faithful_word (h (.word i.relative) (by simp [data]))
    simp [toJson, tagged, ImportedName.faithful_toJson, hrelative]
  | .importAll i, h => by
    have hrelative := Json.faithful_word (h (.word i.relative) (by simp [data]))
    simp [toJson, tagged, hrelative]
  | .returned value, h => by simp [toJson, tagged, Expression.faithful_option h]
  | .block _ b, h => by simpa [toJson, tagged] using faithful_blockMembers b h
  | .guarded body handlers orelse finalBody, h => by
    rw [data, List.forall_mem_append, List.forall_mem_append, List.forall_mem_append] at h
    have hbody := faithful_listToJson body h.1
    have hhandlers := faithful_blocksToJson handlers h.2.1
    have horelse := faithful_listToJson orelse h.2.2.1
    have hfinalBody := faithful_listToJson finalBody h.2.2.2
    simpa [toJson, tagged] using ⟨hbody, hhandlers, horelse, hfinalBody⟩
  | .expression e, h => by simp [toJson, tagged, e.faithful_toJson h]
  | .pass, _ => by simp [toJson, tagged]
  | .other, _ => by simp [toJson, tagged]

theorem faithful_listToJson : (l : List Statement) → (∀ d ∈ dataIn l, d.Rereads) →
    ∀ v ∈ listToJson l, v.Faithful
  | [], _ => by simp [listToJson]
  | s :: l, h => by
    rw [dataIn, List.forall_mem_append] at h
    simpa [listToJson, faithful_toJson s h.1] using faithful_listToJson l h.2

theorem faithful_blockMembers : (b : Block) → (∀ d ∈ blockData b, d.Rereads) →
    ∀ m ∈ blockMembers b, m.2.Faithful
  | .mk body orelse, h => by
    rw [blockData, List.forall_mem_append] at h
    have hbody := faithful_listToJson body h.1
    have horelse := faithful_listToJson orelse h.2
    simpa [blockMembers] using ⟨hbody, horelse⟩

theorem faithful_blocksToJson : (l : List Block) → (∀ d ∈ blocksData l, d.Rereads) →
    ∀ v ∈ blocksToJson l, v.Faithful
  | [], _ => by simp [blocksToJson]
  | b :: l, h => by
    rw [blocksData, List.forall_mem_append] at h
    have hb := faithful_blockMembers b h.1
    have hl := faithful_blocksToJson l h.2
    rw [blocksToJson, List.forall_mem_cons, Json.faithful_object]
    exact ⟨hb, hl⟩
end

/-- What is read of a statement is readable throughout. -/
theorem isReadable_of_ofJson {v : Json} {s : Statement} (h : ofJson v = .ok s) :
    v.isReadable = true := by
  cases hv : v.isReadable with
  | true => rfl
  | false =>
    rw [ofJson, Json.readable, hv] at h
    cases h

end Statement

/-! ## 4. Depth -/

namespace Json

mutual
/-- Where brackets are nested too deep, what is read is not readable. -/
theorem depth_lt_of_reread : (v : Json) → (d : Nat) → d < nestingLimit →
    (v.reread d).isReadable = true → d + v.depth < nestingLimit
  | .null, _, hd, _ | .bool _, _, hd, _ | .int _, _, hd, _ | .float _, _, hd, _ |
    .string _, _, hd, _ | .unreadable, _, hd, _ => hd
  | .array items, d, _, h => by
    rw [reread, atDepth] at h
    split at h
    · rename_i hdepth
      have hitems := depthItems_lt_of_reread items (d + 1) hdepth (isReadable_array.1 h)
      rw [depth]
      omega
    · cases h
  | .object members, d, _, h => by
    rw [reread, atDepth] at h
    split at h
    · rename_i hdepth
      have hmembers := depthMembers_lt_of_reread members (d + 1) hdepth (isReadable_object.1 h)
      rw [depth]
      omega
    · cases h

theorem depthItems_lt_of_reread : (items : List Json) → (d : Nat) → d < nestingLimit →
    (∀ v ∈ rereadItems d items, v.isReadable = true) → d + depthItems items < nestingLimit
  | [], _, hd, _ => hd
  | v :: more, d, hd, h => by
    rw [rereadItems, List.forall_mem_cons] at h
    have hv := depth_lt_of_reread v d hd h.1
    have hmore := depthItems_lt_of_reread more d hd h.2
    rw [depthItems_cons]
    omega

theorem depthMembers_lt_of_reread : (members : Members) → (d : Nat) → d < nestingLimit →
    (∀ m ∈ rereadMembers d members, m.2.isReadable = true) →
    d + depthMembers members < nestingLimit
  | [], _, hd, _ => hd
  | (key, v) :: more, d, hd, h => by
    rw [rereadMembers, rereadMember, List.forall_mem_cons] at h
    have hv := depth_lt_of_reread v d hd h.1
    have hmore := depthMembers_lt_of_reread more d hd h.2
    rw [depthMembers_cons]
    omega
end

theorem exists_of_asList {α : Type} {read : Json → Decoded α} {items : List Json} {l : List α}
    (h : asList read (.array items) = .ok l) : ∀ v ∈ items, ∃ a, read v = .ok a := by
  have hitems : items.mapM read = .ok l := h
  clear h
  induction items generalizing l with
  | nil => exact List.forall_mem_nil _
  | cons v items ih =>
    rw [List.mapM_cons] at hitems
    cases hv : read v with
    | error fault =>
      rw [hv] at hitems
      cases hitems
    | ok a =>
      rw [hv, ok_bind] at hitems
      cases hmore : items.mapM read with
      | error fault =>
        rw [hmore] at hitems
        cases hitems
      | ok more => exact List.forall_mem_cons.2 ⟨⟨a, hv⟩, ih hmore⟩

end Json

/-! ## 5. Files -/

namespace SourceFile

/-- The doubles in a tree. -/
def doubles (f : SourceFile) : List Binary64 := f.data.flatMap Datum.doubles

theorem faithful_toJson {f : SourceFile} (h : f.IsSound) (hdoubles : ∀ x ∈ f.doubles, x.Rereads) :
    f.toJson.Faithful := by
  rw [doubles, List.forall_mem_flatMap] at hdoubles
  have hbody := Statement.faithful_listToJson f.body fun d hd => ⟨h d hd, hdoubles d hd⟩
  simpa [toJson] using hbody

/-- The body is read from the printed text of a tree as it is read from its array. -/
theorem exists_body_of_ofJson {f g : SourceFile} (h : ofJson (f.toJson.reread 0) = .ok g) :
    ∃ body, Json.asList Statement.ofJson
      (.array (Json.rereadItems 2 (Statement.listToJson f.body))) = .ok body := by
  have hmembers : f.toJson.reread 0 = .object [("path", .string f.path),
      ("fullname", .string f.fullname), ("docstring", .ofOption .string f.docstring),
      ("body", .array (Json.rereadItems 2 (Statement.listToJson f.body)))] := by
    obtain ⟨path, fullname, docstring, body⟩ := f
    cases docstring <;> rfl
  cases hbody : Json.asList Statement.ofJson
      (.array (Json.rereadItems 2 (Statement.listToJson f.body))) with
  | ok body => exact ⟨body, rfl⟩
  | error fault =>
    rw [hmembers, ofJson, Json.asRecord, Json.ok_bind] at h
    simp [Json.required_head, Json.required_tail, Json.optional_head, Json.optional_tail,
      Json.withDefault_head, Json.withDefault_tail, Json.asString, Json.asOption_strings,
      Json.ok_bind, hbody] at h

theorem depth_lt_of_parse_pretty {f g : SourceFile} {place : String}
    (h : parse (f.toJson.pretty ++ "\n") place = .ok g) : f.toJson.depth < Json.nestingLimit := by
  rw [parse, Json.parse_pretty, Json.ok_bind] at h
  cases hread : ofJson (f.toJson.reread 0) with
  | error fault =>
    rw [hread] at h
    cases h
  | ok g' =>
    obtain ⟨body, hbody⟩ := exists_body_of_ofJson hread
    have hreadable : ∀ v ∈ Json.rereadItems 2 (Statement.listToJson f.body),
        v.isReadable = true := fun v hv =>
      (Json.exists_of_asList hbody v hv).elim fun _ hs => Statement.isReadable_of_ofJson hs
    have hdepth := Json.depthItems_lt_of_reread _ 2 (by decide) hreadable
    have hdocstring : (Json.ofOption .string f.docstring).depth = 0 := by
      cases f.docstring <;> rfl
    simp only [toJson, Json.depth, Json.depthMembers_cons, hdocstring,
      show Json.depthMembers [] = 0 from rfl]
    omega

/-- **Printed trees are read back unless they are nested too deep.**  A tree that was read from a
text, and whose doubles are read back from their numerals, is read back from the text that is
printed of it exactly if its brackets are within the limit. -/
theorem parse_pretty_iff {text origin : String} {f : SourceFile} (h : parse text origin = .ok f)
    (hdoubles : ∀ x ∈ f.doubles, x.Rereads) (place : String) :
    parse (f.toJson.pretty ++ "\n") place = .ok f ↔ f.toJson.depth < Json.nestingLimit := by
  refine ⟨depth_lt_of_parse_pretty, fun hdepth => ?_⟩
  have hsound := sound_of_parse h
  exact parse_of_json (Json.parse_pretty_of_faithful (faithful_toJson hsound hdoubles) hdepth)
    (ofJson_toJson hsound)

end SourceFile

namespace Sample

/-- A comparison without its operators, under so many signs. -/
def terse : Nat → Json
  | 0 => .object [("expr", .string "comparison")]
  | n + 1 => .object [("expr", .string "unary"), ("op", .string "-"), ("operand", terse n)]

def terseTree (n : Nat) : Json :=
  .object [("path", .string "m.py"), ("fullname", .string "m"),
    ("body", .array [.object [("node", .string "expression"), ("expr", terse n)]])]

def signed : Nat → Expression
  | 0 => .comparison []
  | n + 1 => .unary "-" (signed n) none

def signedFile (n : Nat) : SourceFile where
  path := "m.py"
  fullname := "m"
  docstring := none
  body := [.expression (signed n)]

theorem faithful_terse (n : Nat) : (terse n).Faithful := by
  induction n with
  | zero => simp [terse]
  | succ n ih => simp [terse, ih]

theorem isReadable_terse (n : Nat) : (terse n).isReadable = true := by
  induction n with
  | zero => rfl
  | succ n ih => simp [terse, ih]

theorem depth_terse (n : Nat) : (terse n).depth = n + 1 := by
  induction n with
  | zero => rfl
  | succ n ih =>
    simp only [terse, Json.depth, Json.depthMembers_cons, ih,
      show Json.depthMembers [] = 0 from rfl]
    omega

attribute [local simp] Json.ok_bind Json.asRecord_object Json.required_head Json.required_tail
  Json.optional_tail Json.optional_of_lacks Json.withDefault_head Json.withDefault_tail

theorem ofJsonWithin_terse (n : Nat) :
    Expression.ofJsonWithin (n + 1) (terse n) = .ok (signed n) := by
  induction n with
  | zero => rfl
  | succ n ih =>
    rw [terse, Expression.ofJsonWithin, Json.asTagged_object (by simp)]
    simp [Json.asString, ih, signed]

theorem ofJson_terseTree (n : Nat) : SourceFile.ofJson (terseTree n) = .ok (signedFile n) := by
  have hexpression : Expression.ofJson (terse n) = .ok (signed n) := by
    rw [Expression.ofJson, Json.readable, if_pos (isReadable_terse n), depth_terse]
    exact ofJsonWithin_terse n
  have hstatement : Statement.ofJson (.object [("node", .string "expression"), ("expr", terse n)])
      = .ok (.expression (signed n)) := by
    rw [Statement.ofJson, Json.readable, if_pos (by simp [isReadable_terse]), Json.depth,
      Json.ok_bind, Statement.ofJsonWithin, Json.asTagged_object (by simp)]
    simp [hexpression]
  have hbody := Json.asList_cons hstatement (show Json.asList Statement.ofJson (.array []) = .ok []
    from rfl)
  simp [terseTree, signedFile, SourceFile.ofJson, Json.asString, hbody]

/-- The deepest tree that is read.  The list of operators takes what is written of it past the
limit. -/
theorem deepest_tree_not_reread :
    SourceFile.parse ((terseTree 123).pretty ++ "\n") "m.json" = .ok (signedFile 123)
      ∧ ¬ SourceFile.parse ((signedFile 123).toJson.pretty ++ "\n") "m.json"
        = .ok (signedFile 123) := by
  have htext : Json.parse ((terseTree 123).pretty ++ "\n") = .ok (terseTree 123) :=
    Json.parse_pretty_of_faithful (by simp [terseTree, faithful_terse]) (by decide +kernel)
  have hparse : SourceFile.parse ((terseTree 123).pretty ++ "\n") "m.json"
      = .ok (signedFile 123) :=
    SourceFile.parse_of_json htext (ofJson_terseTree 123)
  have hdoubles : ∀ x ∈ (signedFile 123).doubles, x.Rereads := by
    have hnone : (signedFile 123).doubles = [] := by decide +kernel
    simp [hnone]
  refine ⟨hparse, ?_⟩
  rw [SourceFile.parse_pretty_iff hparse hdoubles]
  decide +kernel

/-- The double that `1e-24` is read as, and the one below it. -/
def tiny : Binary64 := ⟨0x3af357c299a88ea8⟩

def tinier : Binary64 := ⟨0x3af357c299a88ea7⟩

def floatFile (x : Binary64) : SourceFile where
  path := "m.py"
  fullname := "m"
  docstring := none
  body := [.expression (.float x)]

theorem parse_numeral_tiny :
    Json.parse (Decimal.write Json.floatLayout tiny) = .ok (.float tinier) := by
  have htext : Decimal.write Json.floatLayout tiny = "1.0000000000000001e-24" := by decide +kernel
  have hparse : Json.parse "1.0000000000000001e-24"
      = .ok (Json.numberOf false ['1'] (some "0000000000000001".toList) (some (-24))) := rfl
  have hdata : Numeral.ofData? false ['1'] "0000000000000001".toList (-24) = some tinier := by
    decide +kernel
  have hnumber : Json.numberOf false ['1'] (some "0000000000000001".toList) (some (-24))
      = .float tinier := by
    simp only [Json.numberOf, Option.getD, hdata]
  rw [htext, hparse, hnumber]

/-- A double that is read from one numeral, but not from its own. -/
theorem tiny_not_reread :
    Json.parse "1e-24" = .ok (.float tiny)
      ∧ SourceFile.parse ((floatFile tiny).toJson.pretty ++ "\n") "m.json"
        = .ok (floatFile tinier)
      ∧ tinier ≠ tiny := by
  have hparse : Json.parse "1e-24" = .ok (Json.numberOf false ['1'] none (some (-24))) := rfl
  have hdata : Numeral.ofData? false ['1'] [] (-24) = some tiny := by decide +kernel
  have hnumber : Json.numberOf false ['1'] none (some (-24)) = .float tiny := by
    simp only [Json.numberOf, Option.getD, hdata]
  have hreread : Json.rereadFloat tiny = .float tinier := by
    rw [Json.rereadFloat, if_pos (by decide), parse_numeral_tiny]
  have hwritten : ∀ x : Binary64, x.isFinite = true → Json.ofBinary64 x = .float x := fun x hx =>
    if_pos hx
  have hfile : (floatFile tiny).toJson.reread 0 = (floatFile tinier).toJson := by
    simp [floatFile, SourceFile.toJson, Statement.listToJson, Statement.toJson, Statement.tagged,
      Expression.toJson, Expression.tagged, Json.reread, Json.rereadMembers, Json.rereadMember,
      Json.rereadItems, Json.atDepth, Json.nestingLimit, Json.ofOption, hreread,
      hwritten tiny (by decide), hwritten tinier (by decide)]
  have hsound : (floatFile tinier).IsSound := by
    intro d hd
    have hdouble : d = .double tinier := by
      simpa [floatFile, SourceFile.data, Statement.dataIn, Statement.data, Expression.data] using hd
    rw [hdouble]
    exact (by decide : tinier.isFinite = true)
  refine ⟨by rw [hparse, hnumber], ?_, by decide⟩
  exact SourceFile.parse_of_json (by rw [Json.parse_pretty, hfile])
    (SourceFile.ofJson_toJson hsound)

end Sample

end ApiSurface
