import ApiSurface.Proofs.TypeCodec
/-!
# Models through document text

What becomes of a model that is written as a document and read back.  Each row is read back as
`written`, and a model as the model of its written rows (`Api.written`), so reading never fails.
Two things are lost on the way: a double that is not finite, and the empty value as a default, which
is written as null and read as no default at all.
-/

namespace ApiSurface

open Json

/-! ## 1. Parts of rows -/

/-- How the values of a type pass through JSON: what is read of their JSON, when every number in it
comes back, and which of them are read as what they are. -/
structure Json.Passes {α : Type} (read : Json → Decoded α) (write : α → Json) (written : α → α)
    (doubles : α → List Binary64) (Kept : α → Prop) : Prop where
  reads : ∀ a, read (write a) = .ok (written a)
  faithful : ∀ a, (∀ x ∈ doubles a, x.isFinite = true → x.Rereads) → (write a).Faithful
  kept : ∀ a, written a = a ↔ Kept a

/-- Whether all the doubles are finite. -/
def AllFinite (doubles : List Binary64) : Prop := ∀ x ∈ doubles, x.isFinite = true

/-- The values of a type that has no doubles are all kept. -/
theorem Json.Passes.ofPlain {α : Type} {read : Json → Decoded α} {write : α → Json}
    (hread : ∀ a, read (write a) = .ok a) (hfaithful : ∀ a, (write a).Faithful) :
    Passes read write (fun a => a) (fun _ => []) fun _ => True where
  reads := hread
  faithful a _ := hfaithful a
  kept _ := by simp

theorem asOption_string (s : String) : asOption asString (.string s) = .ok (some s) := rfl

namespace QualifiedImport

theorem ofJson_toJson (i : QualifiedImport) : ofJson i.toJson = .ok i := by
  rw [ofJson, toJson, asRecord, ok_bind]
  simp [required_head, optional_tail, optional_omitNone_last asOption_string, asString, ok_bind]

theorem faithful_toJson (i : QualifiedImport) : i.toJson.Faithful := by
  rw [toJson, faithful_object, List.forall_mem_cons, forall_mem_omitNone]
  exact ⟨trivial, fun _ _ => trivial⟩

end QualifiedImport

namespace WildcardImport

theorem ofJson_toJson (i : WildcardImport) : ofJson i.toJson = .ok i := by
  rw [ofJson, toJson, asRecord, ok_bind]
  simp [required_head, asString]

theorem faithful_toJson (i : WildcardImport) : i.toJson.Faithful := by simp [toJson]

end WildcardImport

namespace Description

theorem ofJson_toJson (d : Description) : ofJson d.toJson = .ok d := by
  rw [ofJson, toJson, asRecord, ok_bind]
  simp [required_head, required_tail, asString, ok_bind]

theorem faithful_toJson (d : Description) : d.toJson.Faithful := by simp [toJson]

end Description

theorem Variance.ofJson_name (reading : Json.Reading) (v : Variance) :
    ofJson reading (.string v.name) = .ok v := by
  cases reading <;> cases v <;> rfl

theorem ParameterAssignment.ofJson_name (a : ParameterAssignment) :
    ofJson (.string a.name) = .ok a := by
  cases a <;> rfl

namespace TypeParameter

def written (p : TypeParameter) : TypeParameter :=
  { p with bound := ApiType.optionWritten p.bound }

def doubles (p : TypeParameter) : List Binary64 := ApiType.optionDoubles p.bound

theorem passes : Passes ofJson toJson written doubles fun p => AllFinite p.doubles where
  reads p := by
    rw [ofJson, toJson, asRecord, ok_bind]
    simp [required_head, required_tail, optional_tail, ApiType.optional_toJson_last, asString,
      Variance.ofJson_name, ok_bind, written]
  faithful p h := by
    rw [toJson, faithful_object, List.forall_mem_append, forall_mem_omitNone]
    exact ⟨by simp, ApiType.faithful_option h⟩
  kept p := by
    rw [AllFinite, doubles, ← ApiType.optionWritten_eq_self_iff]
    obtain ⟨name, variance, bound⟩ := p
    simp [written]

end TypeParameter

namespace ParameterDescription

def written (d : ParameterDescription) : ParameterDescription :=
  { d with type := ApiType.optionWritten d.type }

def doubles (d : ParameterDescription) : List Binary64 := ApiType.optionDoubles d.type

theorem passes : Passes ofJson toJson written doubles fun d => AllFinite d.doubles where
  reads d := by
    rw [ofJson, toJson, asRecord, ok_bind]
    simp [required_head, required_tail, required_omitNone_append, ApiType.optional_toJson,
      asString, ok_bind, written]
  faithful d h := by
    rw [toJson, faithful_object, List.forall_mem_append, forall_mem_omitNone]
    exact ⟨ApiType.faithful_option h, by simp⟩
  kept d := by
    rw [AllFinite, doubles, ← ApiType.optionWritten_eq_self_iff]
    obtain ⟨type, defaultValue, description⟩ := d
    simp [written]

end ParameterDescription

namespace ResultDescription

def written (d : ResultDescription) : ResultDescription :=
  { d with type := ApiType.optionWritten d.type }

def doubles (d : ResultDescription) : List Binary64 := ApiType.optionDoubles d.type

theorem passes : Passes ofJson toJson written doubles fun d => AllFinite d.doubles where
  reads d := by
    rw [ofJson, toJson, asRecord, ok_bind]
    simp [required_head, required_tail, required_omitNone_append, ApiType.optional_toJson,
      asString, ok_bind, written]
  faithful d h := by
    rw [toJson, faithful_object, List.forall_mem_append, forall_mem_omitNone]
    exact ⟨ApiType.faithful_option h, by simp⟩
  kept d := by
    rw [AllFinite, doubles, ← ApiType.optionWritten_eq_self_iff]
    obtain ⟨type, name, description⟩ := d
    simp [written]

end ResultDescription

namespace AttributeDescription

def written (d : AttributeDescription) : AttributeDescription :=
  { d with type := ApiType.optionWritten d.type }

def doubles (d : AttributeDescription) : List Binary64 := ApiType.optionDoubles d.type

theorem passes : Passes ofJson toJson written doubles fun d => AllFinite d.doubles where
  reads d := by
    rw [ofJson, toJson, asRecord, ok_bind]
    simp [required_head, required_omitNone_append, ApiType.optional_toJson, asString, ok_bind,
      written]
  faithful d h := by
    rw [toJson, faithful_object, List.forall_mem_append, forall_mem_omitNone]
    exact ⟨ApiType.faithful_option h, by simp⟩
  kept d := by
    rw [AllFinite, doubles, ← ApiType.optionWritten_eq_self_iff]
    obtain ⟨type, description⟩ := d
    simp [written]

end AttributeDescription

/-! ## 2. Rows -/

theorem ModuleRow.passes : Passes ofJson toJson (fun r => r) (fun _ => []) fun _ => True := by
  refine .ofPlain (fun r => ?_) (fun r => ?_)
  · rw [ofJson, toJson, asRecord, ok_bind]
    simp [required_head, required_tail, asString, asList_of_reads QualifiedImport.ofJson_toJson,
      asList_of_reads WildcardImport.ofJson_toJson, asStrings_strings, ok_bind]
  · simp [toJson, QualifiedImport.faithful_toJson, WildcardImport.faithful_toJson]

theorem EnumRow.passes : Passes ofJson toJson (fun r => r) (fun _ => []) fun _ => True := by
  refine .ofPlain (fun r => ?_) (fun r => ?_)
  · rw [ofJson, toJson, asRecord, ok_bind]
    simp [required_head, required_tail, asString, asBool, Description.ofJson_toJson,
      asStrings_strings, ok_bind]
  · simp [toJson, Description.faithful_toJson]

theorem EnumInstanceRow.passes :
    Passes ofJson toJson (fun r => r) (fun _ => []) fun _ => True := by
  refine .ofPlain (fun r => ?_) (fun r => ?_)
  · rw [ofJson, toJson, asRecord, ok_bind]
    simp [required_head, required_tail, asString, ok_bind]
  · simp [toJson]

namespace ClassRow

def written (r : ClassRow) : ClassRow :=
  { r with typeParameters := r.typeParameters.map TypeParameter.written }

theorem id_written (r : ClassRow) : HasId.id r.written = HasId.id r := rfl

def doubles (r : ClassRow) : List Binary64 := r.typeParameters.flatMap TypeParameter.doubles

theorem passes : Passes ofJson toJson written doubles fun r => AllFinite r.doubles where
  reads r := by
    rw [ofJson, toJson, asRecord, ok_bind]
    simp [required_head, required_tail, required_omitNone_append, optional_tail,
      optional_omitNone asOption_string, asString, asBool, asStrings_strings,
      Description.ofJson_toJson, asList_map TypeParameter.passes.reads, ok_bind, written]
  faithful r h := by
    rw [doubles, List.forall_mem_flatMap] at h
    have hparameters := fun p hp => TypeParameter.passes.faithful p (h p hp)
    rw [toJson, faithful_object, List.forall_mem_append, List.forall_mem_append,
      forall_mem_omitNone]
    refine ⟨⟨by simp [Description.faithful_toJson], fun _ _ => trivial⟩, ?_⟩
    simpa using hparameters
  kept r := by
    rw [AllFinite, doubles, List.forall_mem_flatMap]
    have hparameters :=
      Ascending.map_eq_self_iff (f := TypeParameter.written) (l := r.typeParameters)
    simp only [TypeParameter.passes.kept, AllFinite] at hparameters
    rw [← hparameters]
    obtain ⟨⟩ := r
    simp [written]

end ClassRow

namespace FunctionRow

def written (r : FunctionRow) : FunctionRow :=
  { r with typeVarTypes := TypeSet.written r.typeVarTypes }

theorem id_written (r : FunctionRow) : HasId.id r.written = HasId.id r := rfl

def doubles (r : FunctionRow) : List Binary64 := r.typeVarTypes.toList.flatMap ApiType.doubles

theorem passes : Passes ofJson toJson written doubles fun r => AllFinite r.doubles where
  reads r := by
    rw [ofJson, toJson, asRecord, ok_bind]
    simp [required_head, required_tail, asString, asBool, asStrings_strings,
      Description.ofJson_toJson, TypeSet.ofJson_toJson, ok_bind, written]
  faithful r h := by
    have htypes := TypeSet.faithful_toJson h
    simp [toJson, Description.faithful_toJson, htypes]
  kept r := by
    rw [AllFinite, doubles, ← TypeSet.written_eq_self_iff]
    obtain ⟨⟩ := r
    simp [written]

end FunctionRow

namespace ParameterRow

/-- A default as it is read back: what is written as null is read as no default. -/
def writtenDefault : Literal → Option Literal
  | .float x => if x.isFinite then some (.float x) else none
  | .none => none
  | l => some l

theorem asOption_default (l : Literal) :
    asOption Literal.ofJson l.toJson = .ok (writtenDefault l) := by
  cases l with
  | bool | str | none => rfl
  | int n => simp [Literal.toJson, asOption, Literal.ofJson, Literal.fitsInt64_toInt,
      writtenDefault, Except.map]
  | float x =>
    rw [Literal.toJson, ofBinary64, writtenDefault]
    split <;> rfl

def written (r : ParameterRow) : ParameterRow :=
  { r with
    defaultValue := r.defaultValue.bind writtenDefault
    docstring := r.docstring.written
    type := ApiType.optionWritten r.type }

theorem id_written (r : ParameterRow) : HasId.id r.written = HasId.id r := rfl

def doubles (r : ParameterRow) : List Binary64 :=
  r.defaultValue.toList.flatMap Literal.doubles ++ r.docstring.doubles
    ++ ApiType.optionDoubles r.type

theorem writtenDefault_eq_self_iff {a : Option Literal} :
    a.bind writtenDefault = a
      ↔ a ≠ some .none ∧ AllFinite (a.toList.flatMap Literal.doubles) := by
  cases a with
  | none => simp [AllFinite]
  | some l => cases l <;> simp [writtenDefault, AllFinite, Literal.doubles]

theorem passes : Passes ofJson toJson written doubles
    fun r => r.defaultValue ≠ some .none ∧ AllFinite r.doubles where
  reads r := by
    rw [ofJson, toJson, asRecord, ok_bind]
    simp [required_head, required_tail, required_omitNone_append, optional_tail,
      optional_omitNone asOption_default, optional_omitNone_append, ApiType.optional_toJson_last,
      asString, asBool, ParameterAssignment.ofJson_name, ParameterDescription.passes.reads,
      ok_bind, written]
  faithful r h := by
    rw [doubles, List.forall_mem_append, List.forall_mem_append, List.forall_mem_flatMap] at h
    obtain ⟨⟨hdefault, hdocstring⟩, htype⟩ := h
    rw [toJson, faithful_object, List.forall_mem_append, List.forall_mem_append,
      List.forall_mem_append, forall_mem_omitNone, forall_mem_omitNone]
    refine ⟨⟨⟨by simp, fun l hl => ?_⟩, ?_⟩, ApiType.faithful_option htype⟩
    · exact Literal.faithful_toJson (hdefault l (by simpa using hl))
    · simpa using ParameterDescription.passes.faithful _ hdocstring
  kept r := by
    rw [AllFinite, doubles, List.forall_mem_append, List.forall_mem_append, and_assoc, ← and_assoc,
      ← ApiType.optionWritten_eq_self_iff, ← AllFinite, ← writtenDefault_eq_self_iff,
      ← AllFinite, ← ParameterDescription.passes.kept]
    obtain ⟨⟩ := r
    simp [written]

end ParameterRow

namespace AttributeRow

def written (r : AttributeRow) : AttributeRow :=
  { r with type := ApiType.optionWritten r.type, docstring := r.docstring.written }

theorem id_written (r : AttributeRow) : HasId.id r.written = HasId.id r := rfl

def doubles (r : AttributeRow) : List Binary64 :=
  ApiType.optionDoubles r.type ++ r.docstring.doubles

theorem passes : Passes ofJson toJson written doubles fun r => AllFinite r.doubles where
  reads r := by
    rw [ofJson, toJson, asRecord, ok_bind]
    simp [required_head, required_tail, required_omitNone_append, optional_tail,
      ApiType.optional_toJson, asString, asBool, AttributeDescription.passes.reads, ok_bind,
      written]
  faithful r h := by
    rw [doubles, List.forall_mem_append] at h
    rw [toJson, faithful_object, List.forall_mem_append, List.forall_mem_append,
      forall_mem_omitNone]
    refine ⟨⟨by simp, ApiType.faithful_option h.1⟩, ?_⟩
    simpa using AttributeDescription.passes.faithful _ h.2
  kept r := by
    rw [AllFinite, doubles, List.forall_mem_append, ← ApiType.optionWritten_eq_self_iff,
      ← AllFinite, ← AttributeDescription.passes.kept]
    obtain ⟨⟩ := r
    simp [written]

end AttributeRow

namespace ResultRow

def written (r : ResultRow) : ResultRow :=
  { r with type := r.type.written, docstring := r.docstring.map ResultDescription.written }

theorem id_written (r : ResultRow) : HasId.id r.written = HasId.id r := rfl

def doubles (r : ResultRow) : List Binary64 :=
  r.type.doubles ++ r.docstring.toList.flatMap ResultDescription.doubles

theorem asOption_docstring (d : ResultDescription) :
    asOption ResultDescription.ofJson d.toJson = .ok (some d.written) := by
  rw [asOption_of_ne_null (by simp [ResultDescription.toJson]), ResultDescription.passes.reads]
  rfl

theorem passes : Passes ofJson toJson written doubles fun r => AllFinite r.doubles where
  reads r := by
    have hdocstring : (r.docstring.bind fun d => some d.written)
        = r.docstring.map ResultDescription.written := Option.map_eq_bind.symm
    rw [ofJson, toJson, asRecord, ok_bind]
    simp [required_head, required_tail, optional_tail, optional_omitNone_last asOption_docstring,
      asString, ApiType.ofJson_toJson, ok_bind, written, hdocstring]
  faithful r h := by
    rw [doubles, List.forall_mem_append, List.forall_mem_flatMap] at h
    rw [toJson, faithful_object, List.forall_mem_append, forall_mem_omitNone]
    refine ⟨by simpa using r.type.faithful_toJson h.1, fun d hd => ?_⟩
    exact ResultDescription.passes.faithful d (h.2 d (by simpa using hd))
  kept r := by
    rw [AllFinite, doubles, List.forall_mem_append, ← ApiType.written_eq_self_iff]
    obtain ⟨rid, rname, type, docstring⟩ := r
    cases docstring with
    | none => simp [written]
    | some d => simpa [written, AllFinite] using fun _ => ResultDescription.passes.kept d

end ResultRow

/-! ## 3. Documents -/

namespace Document

/-- A document with each of its rows as it is read back. -/
def written (d : Document) : Document :=
  { d with
    classes := d.classes.map ClassRow.written
    functions := d.functions.map FunctionRow.written
    results := d.results.map ResultRow.written
    attributes := d.attributes.map AttributeRow.written
    parameters := d.parameters.map ParameterRow.written }

theorem ofJson_toJson (d : Document) : ofJson d.toJson = .ok d.written := by
  rw [ofJson, toJson, asRecord, ok_bind]
  simp [required_head, required_tail, asString, asList_map ModuleRow.passes.reads,
    asList_map ClassRow.passes.reads, asList_map FunctionRow.passes.reads,
    asList_map ParameterRow.passes.reads, asList_map AttributeRow.passes.reads,
    asList_map ResultRow.passes.reads, asList_map EnumRow.passes.reads,
    asList_map EnumInstanceRow.passes.reads, ok_bind, written]

/-- The doubles in the rows of a document. -/
def doubles (d : Document) : List Binary64 :=
  d.classes.flatMap ClassRow.doubles ++ (d.functions.flatMap FunctionRow.doubles
    ++ (d.parameters.flatMap ParameterRow.doubles ++ (d.attributes.flatMap AttributeRow.doubles
    ++ d.results.flatMap ResultRow.doubles)))

theorem faithful_toJson {d : Document} (h : ∀ x ∈ d.doubles, x.isFinite = true → x.Rereads) :
    d.toJson.Faithful := by
  simp only [doubles, List.forall_mem_append, List.forall_mem_flatMap] at h
  obtain ⟨hclasses, hfunctions, hparameters, hattributes, hresults⟩ := h
  have hmodule := fun r => ModuleRow.passes.faithful r (by simp)
  have henum := fun r => EnumRow.passes.faithful r (by simp)
  have hinstance := fun r => EnumInstanceRow.passes.faithful r (by simp)
  have hclass := fun r hr => ClassRow.passes.faithful r (hclasses r hr)
  have hfunction := fun r hr => FunctionRow.passes.faithful r (hfunctions r hr)
  have hparameter := fun r hr => ParameterRow.passes.faithful r (hparameters r hr)
  have hattribute := fun r hr => AttributeRow.passes.faithful r (hattributes r hr)
  have hresult := fun r hr => ResultRow.passes.faithful r (hresults r hr)
  simpa [toJson, hmodule, henum, hinstance] using
    ⟨hclass, hfunction, hresult, hattribute, hparameter⟩

/-- The text of a document is read back as its rows are. -/
theorem parse_emit {d : Document} (h : ∀ x ∈ d.doubles, x.isFinite = true → x.Rereads)
    (hdepth : d.toJson.depth < nestingLimit) : parse d.emit = .ok d.written := by
  rw [parse, emit, parse_pretty_of_faithful (faithful_toJson h) hdepth, ok_bind, ofJson_toJson]

end Document

/-! ## 4. Models -/

namespace Api

/-- A model is the model of its document. -/
theorem ofDocument_toDocument (a : Api) : ofDocument a.toDocument = .ok a := by
  simp only [ofDocument, toDocument, Table.ofRows_toList]
  rfl

/-- A model with each of its rows as it is read back. -/
def written (a : Api) : Api :=
  { a with
    classes := a.classes.mapRows ClassRow.written ClassRow.id_written
    functions := a.functions.mapRows FunctionRow.written FunctionRow.id_written
    parameters := a.parameters.mapRows ParameterRow.written ParameterRow.id_written
    attributes := a.attributes.mapRows AttributeRow.written AttributeRow.id_written
    results := a.results.mapRows ResultRow.written ResultRow.id_written }

theorem toDocument_written (a : Api) : a.toDocument.written = a.written.toDocument := rfl

/-- The doubles in the rows of a model. -/
def doubles (a : Api) : List Binary64 := a.toDocument.doubles

theorem written_eq_self_iff {a : Api} :
    a.written = a ↔ (∀ p ∈ a.parameters.toList, p.defaultValue ≠ some .none)
      ∧ AllFinite a.doubles := by
  have htables : a.written = a ↔ (∀ r ∈ a.classes.toList, r.written = r)
      ∧ (∀ r ∈ a.functions.toList, r.written = r) ∧ (∀ r ∈ a.parameters.toList, r.written = r)
      ∧ (∀ r ∈ a.attributes.toList, r.written = r) ∧ ∀ r ∈ a.results.toList, r.written = r := by
    obtain ⟨⟩ := a
    simp [written, Table.mapRows_eq_self_iff]
  rw [htables]
  simp only [ClassRow.passes.kept, FunctionRow.passes.kept, ParameterRow.passes.kept,
    AttributeRow.passes.kept, ResultRow.passes.kept, AllFinite, doubles, Document.doubles,
    toDocument, List.forall_mem_append, List.forall_mem_flatMap]
  constructor
  · rintro ⟨hc, hf, hp, ha, hr⟩
    exact ⟨fun p h => (hp p h).1, hc, hf, fun p h => (hp p h).2, ha, hr⟩
  · rintro ⟨hdefault, hc, hf, hp, ha, hr⟩
    exact ⟨hc, hf, fun p h => ⟨hdefault p h, hp p h⟩, ha, hr⟩

/-- The model that is read back from the text of a document. -/
theorem ofDocument_parse_emit {a : Api} (h : ∀ x ∈ a.doubles, x.isFinite = true → x.Rereads)
    (hdepth : a.toDocument.toJson.depth < nestingLimit) :
    (Document.parse a.toDocument.emit >>= ofDocument) = .ok a.written := by
  rw [Document.parse_emit h hdepth, toDocument_written]
  exact ofDocument_toDocument a.written

/-- **When a model comes back from its document.**  Reading the text never fails, given that the
numerals of finite doubles are read back as those doubles and that no type in the model is nested
past what a reader takes.  The model read is the model written exactly if no parameter has the empty
value as its default and every double is finite. -/
theorem document_lossless_iff (a : Api)
    (hnumerals : ∀ x ∈ a.doubles, x.isFinite = true → x.Rereads)
    (hdepth : a.toDocument.toJson.depth < nestingLimit) :
    ∃ back, (Document.parse a.toDocument.emit >>= ofDocument) = .ok back
      ∧ (back = a ↔ (∀ p ∈ a.parameters.toList, p.defaultValue ≠ some .none)
        ∧ ∀ x ∈ a.doubles, x.isFinite = true) :=
  ⟨a.written, ofDocument_parse_emit hnumerals hdepth, written_eq_self_iff⟩

/-- A model of one optional parameter with a default. -/
def ofDefault (l : Literal) : Api :=
  ({} : Api).add (.parameter
    { id := "m/f/x", name := "x", isOptional := true, defaultValue := some l,
      assignedBy := .positionOrName, docstring := {},
      type := some (.named "float" "builtins.float") })

def half : Binary64 := ⟨0x3fe0000000000000⟩

theorem half_rereads : half.Rereads := by
  have htext : Decimal.write Json.floatLayout half = "0.5" := by decide
  have hparse : Json.parse "0.5" = .ok (Json.numberOf false ['0'] (some ['5']) none) := rfl
  have hdata : Numeral.ofData? false ['0'] ['5'] 0 = some half := by decide +kernel
  have hnumber : Json.numberOf false ['0'] (some ['5']) none = .float half := by
    simp only [Json.numberOf, Option.getD, hdata]
  rw [Binary64.Rereads, htext, hparse, hnumber]

theorem half_default_kept :
    (∀ x ∈ (ofDefault (.float half)).doubles, x.isFinite = true → x.Rereads)
      ∧ (ofDefault (.float half)).toDocument.toJson.depth < nestingLimit
      ∧ (Document.parse (ofDefault (.float half)).toDocument.emit >>= ofDocument)
        = .ok (ofDefault (.float half)) := by
  have hdoubles : (ofDefault (.float half)).doubles = [half] := rfl
  have hnumerals : ∀ x ∈ (ofDefault (.float half)).doubles, x.isFinite = true → x.Rereads := by
    rw [hdoubles]
    intro x hx _
    rw [List.mem_singleton.1 hx]
    exact half_rereads
  have hdepth : (ofDefault (.float half)).toDocument.toJson.depth < nestingLimit := by decide
  obtain ⟨back, hback, hiff⟩ := document_lossless_iff (ofDefault (.float half)) hnumerals hdepth
  have hkept : back = ofDefault (.float half) := by
    refine hiff.2 ⟨?_, ?_⟩
    · intro p hp
      rw [List.mem_singleton.1 hp]
      decide
    · rw [hdoubles]
      decide
  rw [hkept] at hback
  exact ⟨hnumerals, hdepth, hback⟩

/-- A default that is the empty value does not come back. -/
theorem none_default_lost :
    ∃ back, (Document.parse (ofDefault .none).toDocument.emit >>= ofDocument) = .ok back
      ∧ back ≠ ofDefault .none := by
  have hnumerals : ∀ x ∈ (ofDefault .none).doubles, x.isFinite = true → x.Rereads := by
    intro x hx
    cases hx
  refine ⟨_, ofDocument_parse_emit hnumerals (by decide), fun heq => ?_⟩
  exact (written_eq_self_iff.1 heq).1 _ (List.mem_singleton.2 rfl) rfl

end Api

end ApiSurface
