import ApiSurface.Api.Document
import ApiSurface.Proofs.JsonText
import ApiSurface.Proofs.Tables
import Mathlib.Control.Monad.Basic
/-!
# Types and literals through JSON

JSON has no numeral for a double that is not finite: it is written as null, and null is read as the
empty literal or as a bound that is not there.  `written` is what a literal, a range or a type
becomes that way, and reading the JSON of a type gives just that (`ofJson_toJson`).

The text of a value is read back as the same value if it is not nested too deep and each number in
it comes back (`parse_pretty_of_faithful`).
-/

namespace ApiSurface

/-! ## 1. Values that come back as they are -/

/-- Whether the numeral of a double is read back as the same double. -/
def Binary64.Rereads (x : Binary64) : Prop :=
  Json.parse (Decimal.write Json.floatLayout x) = .ok (.float x)

namespace Json

theorem rereadFloat_of_rereads {x : Binary64} (hx : x.isFinite = true) (h : x.Rereads) :
    rereadFloat x = .float x := by
  obtain ⟨n, -, hn⟩ := Decimal.write_numeral hx
  have hparse : parse (Decimal.write floatLayout x) = .ok (rereadFloat x) := by
    rw [parse_write hn, rereadFloat_eq hx hn]
  exact Except.ok.inj (hparse.symm.trans h)

theorem depth_array (items : List Json) : (Json.array items).depth = depthItems items + 1 := by
  rw [depth]

theorem depthItems_cons (v : Json) (more : List Json) :
    depthItems (v :: more) = max v.depth (depthItems more) := rfl

theorem depthMembers_cons (key : String) (v : Json) (more : Members) :
    depthMembers ((key, v) :: more) = max v.depth (depthMembers more) := rfl

mutual
/-- Whether each number in a value comes back, and nothing in it is unreadable. -/
def Faithful : Json → Prop
  | .int n => -0x8000000000000000 ≤ n ∧ n ≤ Numeral.largest
  | .float x => x.isFinite = true ∧ x.Rereads
  | .array items => FaithfulItems items
  | .object members => FaithfulMembers members
  | .unreadable => False
  | .null | .bool _ | .string _ => True

def FaithfulItems : List Json → Prop
  | [] => True
  | v :: more => v.Faithful ∧ FaithfulItems more

def FaithfulMembers : List (String × Json) → Prop
  | [] => True
  | m :: more => FaithfulMember m ∧ FaithfulMembers more

def FaithfulMember : String × Json → Prop
  | (_, v) => v.Faithful
end

mutual
/-- A faithful value that is not nested too deep comes back as it is. -/
theorem reread_of_faithful : (v : Json) → (d : Nat) → v.Faithful → d + v.depth < nestingLimit →
    v.reread d = v
  | .null, _, _, _ => rfl
  | .bool _, _, _, _ => rfl
  | .string _, _, _, _ => rfl
  | .int n, _, hv, _ => UnsignedNumeral.value_ofNat hv.1 hv.2
  | .float x, _, hv, _ => rereadFloat_of_rereads hv.1 hv.2
  | .unreadable, _, hv, _ => hv.elim
  | .array items, d, hv, hd => by
    rw [depth] at hd
    rw [reread, rereadItems_of_faithful items (d + 1) hv (by omega), atDepth, if_pos (by omega)]
  | .object members, d, hv, hd => by
    rw [depth] at hd
    rw [reread, rereadMembers_of_faithful members (d + 1) hv (by omega), atDepth,
      if_pos (by omega)]

theorem rereadItems_of_faithful : (items : List Json) → (d : Nat) → FaithfulItems items →
    d + depthItems items < nestingLimit → rereadItems d items = items
  | [], _, _, _ => rfl
  | v :: more, d, hv, hd => by
    rw [depthItems_cons] at hd
    rw [rereadItems, reread_of_faithful v d hv.1 (by omega),
      rereadItems_of_faithful more d hv.2 (by omega)]

theorem rereadMembers_of_faithful : (members : List (String × Json)) → (d : Nat) →
    FaithfulMembers members → d + depthMembers members < nestingLimit →
    rereadMembers d members = members
  | [], _, _, _ => rfl
  | (key, v) :: more, d, hv, hd => by
    rw [depthMembers_cons] at hd
    rw [rereadMembers, rereadMember, reread_of_faithful v d hv.1 (by omega),
      rereadMembers_of_faithful more d hv.2 (by omega)]
end

/-- The text of a faithful value that is not nested too deep is read back as the value. -/
theorem parse_pretty_of_faithful {v : Json} (h : v.Faithful) (hd : v.depth < nestingLimit) :
    parse (v.pretty ++ "\n") = .ok v := by
  rw [parse_pretty, reread_of_faithful v 0 h (by omega)]

/-! ## 2. Faithful parts -/

theorem faithfulItems_iff {items : List Json} : FaithfulItems items ↔ ∀ v ∈ items, v.Faithful := by
  induction items with
  | nil => simp [FaithfulItems]
  | cons v items ih => rw [FaithfulItems, ih, List.forall_mem_cons]

theorem faithfulMembers_iff {ms : Members} : FaithfulMembers ms ↔ ∀ m ∈ ms, m.2.Faithful := by
  induction ms with
  | nil => simp [FaithfulMembers]
  | cons m ms ih =>
    obtain ⟨key, v⟩ := m
    rw [FaithfulMembers, ih, List.forall_mem_cons, FaithfulMember]

@[simp] theorem faithful_string (s : String) : (Json.string s).Faithful := trivial

@[simp] theorem faithful_bool (b : Bool) : (Json.bool b).Faithful := trivial

@[simp] theorem faithful_array {items : List Json} :
    (Json.array items).Faithful ↔ ∀ v ∈ items, v.Faithful := faithfulItems_iff

@[simp] theorem faithful_object {ms : Members} :
    (Json.object ms).Faithful ↔ ∀ m ∈ ms, m.2.Faithful := faithfulMembers_iff

@[simp] theorem faithful_strings (l : List String) : (strings l).Faithful := by
  simp [strings]

@[simp] theorem forall_mem_omitNone {α : Type} {key : String} {f : α → Json} {a : Option α}
    {P : String × Json → Prop} : (∀ m ∈ omitNone key f a, P m) ↔ ∀ b ∈ a, P (key, f b) := by
  cases a <;> simp [omitNone]

theorem faithful_ofBinary64 {x : Binary64} (h : x.isFinite = true → x.Rereads) :
    (ofBinary64 x).Faithful := by
  rw [ofBinary64]
  split
  · rename_i hx
    exact ⟨hx, h hx⟩
  · exact trivial

theorem readableItems_iff {items : List Json} :
    readableItems items = true ↔ ∀ v ∈ items, v.isReadable = true := by
  induction items with
  | nil => simp [readableItems]
  | cons v items ih => rw [readableItems, Bool.and_eq_true, ih, List.forall_mem_cons]

theorem readableMembers_iff {ms : Members} :
    readableMembers ms = true ↔ ∀ m ∈ ms, m.2.isReadable = true := by
  induction ms with
  | nil => simp [readableMembers]
  | cons m ms ih =>
    obtain ⟨key, v⟩ := m
    rw [readableMembers, readableMember, Bool.and_eq_true, ih, List.forall_mem_cons]

@[simp] theorem isReadable_string (s : String) : (Json.string s).isReadable = true := rfl

@[simp] theorem isReadable_bool (b : Bool) : (Json.bool b).isReadable = true := rfl

@[simp] theorem isReadable_array {items : List Json} :
    (Json.array items).isReadable = true ↔ ∀ v ∈ items, v.isReadable = true := readableItems_iff

@[simp] theorem isReadable_object {ms : Members} :
    (Json.object ms).isReadable = true ↔ ∀ m ∈ ms, m.2.isReadable = true := readableMembers_iff

@[simp] theorem isReadable_strings (l : List String) : (strings l).isReadable = true := by
  simp [strings]

@[simp] theorem isReadable_ofBinary64 (x : Binary64) : (ofBinary64 x).isReadable = true := by
  rw [ofBinary64]
  split <;> rfl

/-! ## 3. Records -/

/-- Whether no member has the key. -/
def Lacks (ms : Members) (key : String) : Prop := ∀ m ∈ ms, m.1 ≠ key

section Member

variable {α β : Type} {k key : String} {v : Json} {ms ms' : Members} {f : Json → Decoded β}
  {w : α → Json} {a : Option α}

@[simp] theorem lacks_nil : Lacks [] key := by simp [Lacks]

@[simp] theorem lacks_cons : Lacks ((k, v) :: ms) key ↔ k ≠ key ∧ Lacks ms key := by
  simp only [Lacks, List.forall_mem_cons]

@[simp] theorem lacks_append : Lacks (ms ++ ms') key ↔ Lacks ms key ∧ Lacks ms' key := by
  simp only [Lacks, List.forall_mem_append]

@[simp] theorem lacks_omitNone (h : k ≠ key) : Lacks (omitNone k w a) key := by
  cases a with
  | none => exact lacks_nil
  | some a => exact lacks_cons.2 ⟨h, lacks_nil⟩

theorem filter_of_lacks (h : Lacks ms key) : ms.filter (fun m => m.1 == key) = [] :=
  List.filter_eq_nil_iff.2 fun m hm => by simpa using h m hm

theorem member?_of_lacks (h : Lacks ms key) : member? ms key = .ok none := by
  rw [member?, filter_of_lacks h]

theorem member?_head (h : Lacks ms key) : member? ((key, v) :: ms) key = .ok (some v) := by
  simp [member?, filter_of_lacks h]

theorem member?_tail (h : k ≠ key) : member? ((k, v) :: ms) key = member? ms key := by
  simp [member?, h]

theorem member?_omitNone_append (h : k ≠ key) :
    member? (omitNone k w a ++ ms) key = member? ms key := by
  cases a with
  | none => rfl
  | some a => exact member?_tail h

theorem required_head (h : Lacks ms key) : required ((key, v) :: ms) key f = f v := by
  rw [required, member?_head h]
  rfl

theorem required_tail (h : k ≠ key) : required ((k, v) :: ms) key f = required ms key f := by
  rw [required, member?_tail h, required]

theorem required_omitNone_append (h : k ≠ key) :
    required (omitNone k w a ++ ms) key f = required ms key f := by
  rw [required, member?_omitNone_append h, required]

theorem optional_of_lacks (h : Lacks ms key) : optional ms key f = .ok none := by
  rw [optional, member?_of_lacks h]
  rfl

theorem optional_head (h : Lacks ms key) : optional ((key, v) :: ms) key f = asOption f v := by
  rw [optional, member?_head h]
  rfl

theorem optional_tail (h : k ≠ key) : optional ((k, v) :: ms) key f = optional ms key f := by
  rw [optional, member?_tail h, optional]

theorem optional_omitNone_append (h : k ≠ key) :
    optional (omitNone k w a ++ ms) key f = optional ms key f := by
  rw [optional, member?_omitNone_append h, optional]

/-- A member that may be left out is read as what is read of its value, if that is there. -/
theorem optional_omitNone {g : α → Option β} (hread : ∀ a, asOption f (w a) = .ok (g a))
    (h : Lacks ms key) : optional (omitNone key w a ++ ms) key f = .ok (a.bind g) := by
  cases a with
  | none => exact optional_of_lacks h
  | some a => exact (optional_head h).trans (hread a)

theorem optional_omitNone_last {g : α → Option β} (hread : ∀ a, asOption f (w a) = .ok (g a)) :
    optional (omitNone key w a) key f = .ok (a.bind g) := by
  rw [← List.append_nil (omitNone key w a), optional_omitNone hread lacks_nil]

end Member

theorem ok_bind {α β : Type} (a : α) (f : α → Decoded β) : (Except.ok a >>= f) = f a := rfl

theorem asList_cons {α : Type} {read : Json → Decoded α} {v : Json} {vs : List Json} {a : α}
    {as : List α} (hv : read v = .ok a) (hvs : asList read (.array vs) = .ok as) :
    asList read (.array (v :: vs)) = .ok (a :: as) := by
  have hitems : vs.mapM read = .ok as := hvs
  have hall : (v :: vs).mapM read = .ok (a :: as) := by
    rw [List.mapM_cons, hv, hitems]
    rfl
  exact hall

/-- What is written item by item is read item by item. -/
theorem asList_map {α β : Type} {write : α → Json} {read : Json → Decoded β} {g : α → β}
    (h : ∀ a, read (write a) = .ok (g a)) (l : List α) :
    asList read (.array (l.map write)) = .ok (l.map g) := by
  induction l with
  | nil => rfl
  | cons a l ih => exact asList_cons (h a) ih

/-- A list comes back if its items do. -/
theorem asList_of_reads {α : Type} {write : α → Json} {read : Json → Decoded α}
    (h : ∀ a, read (write a) = .ok a) (l : List α) :
    asList read (.array (l.map write)) = .ok l := by
  have hl := asList_map h l
  rwa [List.map_id'] at hl

theorem asStrings_strings (l : List String) : asStrings (strings l) = .ok l := by
  have hstring : ∀ s, asString (.string s) = .ok s := fun _ => rfl
  exact asList_of_reads hstring l

/-- An optional value that is not written as null is read back as what is read of it. -/
theorem asOption_of_ne_null {α : Type} {f : Json → Decoded α} {v : Json} (h : v ≠ .null) :
    asOption f v = (f v).map some := by
  cases v with
  | null => exact absurd rfl h
  | bool | int | float | string | array | object | unreadable => rfl

end Json

/-! ## 4. Literals and ranges -/

namespace Literal

/-- The doubles in a literal. -/
def doubles : Literal → List Binary64
  | .float x => [x]
  | _ => []

/-- A literal as its JSON says it. -/
def written : Literal → Literal
  | .float x => if x.isFinite then .float x else .none
  | l => l

theorem fitsInt64_toInt (n : Int64) : fitsInt64 n.toInt = true := by
  have hlow := n.le_toInt
  have hhigh := n.toInt_lt
  simp only [fitsInt64, Bool.and_eq_true, decide_eq_true_eq]
  omega

theorem ofJson_toJson (l : Literal) : ofJson l.toJson = .ok l.written := by
  cases l with
  | bool | str | none => rfl
  | int n => simp [toJson, ofJson, fitsInt64_toInt, written]
  | float x =>
    rw [toJson, Json.ofBinary64, written]
    split <;> rfl

theorem isReadable_toJson (l : Literal) : l.toJson.isReadable = true := by
  cases l with
  | bool | str | none | int => rfl
  | float x => exact Json.isReadable_ofBinary64 x

theorem faithful_toJson {l : Literal} (h : ∀ x ∈ l.doubles, x.isFinite = true → x.Rereads) :
    l.toJson.Faithful := by
  cases l with
  | bool | str | none => exact trivial
  | int n =>
    have hlow := n.le_toInt
    have hhigh := n.toInt_lt
    have hlargest : 2 ^ 63 ≤ Numeral.largest := by decide
    exact ⟨hlow, by omega⟩
  | float x => exact Json.faithful_ofBinary64 (h x (by simp [doubles]))

theorem written_written (l : Literal) : l.written.written = l.written := by
  cases l with
  | bool | str | none | int => rfl
  | float x => cases hx : x.isFinite <;> simp [written, hx]

theorem written_eq_self_iff {l : Literal} : l.written = l ↔ ∀ x ∈ l.doubles, x.isFinite = true := by
  cases l with
  | bool | str | none | int => simp [written, doubles]
  | float x => simp [written, doubles]

end Literal

theorem BoundaryBase.ofJson_name (b : BoundaryBase) : ofJson (.string b.name) = .ok b := by
  cases b <;> rfl

namespace Boundary

def doubles (b : Boundary) : List Binary64 := b.min.toList ++ b.max.toList

/-- A range as its JSON says it. -/
def written (b : Boundary) : Boundary :=
  { b with min := b.min.filter (·.isFinite), max := b.max.filter (·.isFinite) }

theorem asOption_ofOption (x : Option Binary64) :
    Json.asOption Json.asBinary64 (.ofOption Json.ofBinary64 x) = .ok (x.filter (·.isFinite)) := by
  cases x with
  | none => rfl
  | some x =>
    rw [Json.ofOption, Json.ofBinary64, Option.filter_some]
    split <;> rfl

theorem faithful_ofOption {x : Option Binary64}
    (h : ∀ y ∈ x.toList, y.isFinite = true → y.Rereads) :
    (Json.ofOption Json.ofBinary64 x).Faithful := by
  cases x with
  | none => exact trivial
  | some x => exact Json.faithful_ofBinary64 (h x (by simp))

theorem ofMembers_members (b : Boundary) (kind : Json) :
    ofMembers (("kind", kind) :: b.members) = .ok b.written := by
  simp only [members, ofMembers]
  simp [Json.required_head, Json.required_tail, Json.optional_head, Json.optional_tail,
    Json.asBool, BoundaryBase.ofJson_name, asOption_ofOption]
  rfl

theorem readable_members (b : Boundary) : ∀ m ∈ b.members, m.2.isReadable = true := by
  have hbound : ∀ x, (Json.ofOption Json.ofBinary64 x).isReadable = true := by
    intro x
    cases x with
    | none => rfl
    | some x => exact Json.isReadable_ofBinary64 x
  simp [members, hbound]

theorem faithful_members {b : Boundary} (h : ∀ x ∈ b.doubles, x.isFinite = true → x.Rereads) :
    ∀ m ∈ b.members, m.2.Faithful := by
  rw [doubles, List.forall_mem_append] at h
  simp [members, faithful_ofOption h.1, faithful_ofOption h.2]

theorem written_written (b : Boundary) : b.written.written = b.written := by
  simp [written, Option.filter_filter]

theorem filter_eq_self_iff {x : Option Binary64} :
    x.filter (·.isFinite) = x ↔ ∀ y ∈ x.toList, y.isFinite = true := by
  cases x <;> simp [Option.filter_some]

theorem written_eq_self_iff {b : Boundary} :
    b.written = b ↔ ∀ x ∈ b.doubles, x.isFinite = true := by
  rw [doubles, List.forall_mem_append, ← filter_eq_self_iff, ← filter_eq_self_iff]
  obtain ⟨base, min, minInclusive, max, maxInclusive⟩ := b
  simp [written]

end Boundary

/-! ## 5. Types -/

namespace ApiType

mutual
/-- The doubles in a type. -/
def doubles : ApiType → List Binary64
  | .boundary range => range.doubles
  | .literal values => values.flatMap Literal.doubles
  | .namedSequence _ _ types => doublesIn types
  | .list types => doublesIn types
  | .set types => doublesIn types
  | .tuple types => doublesIn types
  | .union types => doublesIn types
  | .dict k v => k.doubles ++ v.doubles
  | .callable parameters result => doublesIn parameters ++ result.doubles
  | .final inner => inner.doubles
  | .typeVar _ bound => optionDoubles bound
  | .unknown | .named .. | .enum _ => []

def doublesIn : List ApiType → List Binary64
  | [] => []
  | t :: more => t.doubles ++ doublesIn more

def optionDoubles : Option ApiType → List Binary64
  | Option.none => []
  | some t => t.doubles
end

mutual
/-- A type as its JSON says it. -/
def written : ApiType → ApiType
  | .boundary range => .boundary range.written
  | .literal values => .literal (values.map Literal.written)
  | .namedSequence name qname types => .namedSequence name qname (writtenIn types)
  | .list types => .list (writtenIn types)
  | .set types => .set (writtenIn types)
  | .tuple types => .tuple (writtenIn types)
  | .union types => .union (writtenIn types)
  | .dict k v => .dict k.written v.written
  | .callable parameters result => .callable (writtenIn parameters) result.written
  | .final inner => .final inner.written
  | .typeVar name bound => .typeVar name (optionWritten bound)
  | .unknown => .unknown
  | .named name qname => .named name qname
  | .enum values => .enum values

def writtenIn : List ApiType → List ApiType
  | [] => []
  | t :: more => t.written :: writtenIn more

def optionWritten : Option ApiType → Option ApiType
  | Option.none => Option.none
  | some t => some t.written
end

open Json (required_head required_tail optional_head optional_tail optional_of_lacks ok_bind)

theorem depth_tagged (kind : String) (ms : Json.Members) :
    (tagged kind ms).depth = Json.depthMembers ms + 1 := by
  have hkind : (Json.string kind).depth = 0 := rfl
  rw [tagged, Json.depth, Json.depthMembers_cons, hkind, Nat.zero_max]

theorem toJson_ne_null (t : ApiType) : t.toJson ≠ .null := by
  cases t <;> simp [toJson, tagged]

theorem depth_toJson_pos (t : ApiType) : 0 < t.toJson.depth := by
  have htagged : ∀ kind ms, 0 < (tagged kind ms).depth := by
    intro kind ms
    rw [depth_tagged]
    omega
  cases t <;> exact htagged _ _

/-- A tagged value is read by its kind and its members. -/
theorem ofJsonWithin_tagged {n : Nat} {kind : String} {ms : Json.Members}
    (h : Json.Lacks ms "kind") :
    ofJsonWithin (n + 1) (tagged kind ms)
      = ofMembers (ofJsonWithin n) kind (("kind", .string kind) :: ms) := by
  have htag : Json.required (("kind", Json.string kind) :: ms) "kind" Json.asString = .ok kind :=
    required_head h
  rw [tagged, ofJsonWithin, Json.asTagged, htag]
  rfl

/-- The kinds that hold nothing but a list of types. -/
theorem ofJsonWithin_types {n : Nat} {kind : String} {make : List ApiType → ApiType}
    {types : List ApiType}
    (hof : ∀ read m, ofMembers read kind m = make <$> Json.required m "types" (Json.asList read))
    (htypes : Json.asList (ofJsonWithin n) (.array (listToJson types)) = .ok (writtenIn types)) :
    ofJsonWithin (n + 1) (tagged kind [("types", .array (listToJson types))])
      = .ok (make (writtenIn types)) := by
  rw [ofJsonWithin_tagged (by simp), hof]
  simp [required_head, required_tail, htypes]

mutual
/-- Reading recurses as far as the JSON of a type is nested. -/
theorem ofJsonWithin_toJson : (t : ApiType) → (n : Nat) → t.toJson.depth ≤ n →
    ofJsonWithin n t.toJson = .ok t.written
  | t, 0, hn => by
    have := depth_toJson_pos t
    omega
  | .unknown, n + 1, hn => by
    rw [toJson, ofJsonWithin_tagged (by simp)]
    rfl
  | .named name qname, n + 1, hn => by
    rw [toJson, ofJsonWithin_tagged (by simp)]
    simp [ofMembers, written, required_head, required_tail, Json.asString, ok_bind]
  | .namedSequence name qname types, n + 1, hn => by
    rw [toJson, depth_tagged, Json.depthMembers_cons, Json.depthMembers_cons,
      Json.depthMembers_cons, Json.depth_array] at hn
    have htypes := listWithin_toJson types n (by omega)
    rw [toJson, ofJsonWithin_tagged (by simp)]
    simp [ofMembers, written, required_head, required_tail, Json.asString, htypes, ok_bind]
  | .list types, n + 1, hn => by
    rw [toJson, depth_tagged, Json.depthMembers_cons, Json.depth_array] at hn
    exact ofJsonWithin_types (fun _ _ => rfl) (listWithin_toJson types n (by omega))
  | .set types, n + 1, hn => by
    rw [toJson, depth_tagged, Json.depthMembers_cons, Json.depth_array] at hn
    exact ofJsonWithin_types (fun _ _ => rfl) (listWithin_toJson types n (by omega))
  | .tuple types, n + 1, hn => by
    rw [toJson, depth_tagged, Json.depthMembers_cons, Json.depth_array] at hn
    exact ofJsonWithin_types (fun _ _ => rfl) (listWithin_toJson types n (by omega))
  | .union types, n + 1, hn => by
    rw [toJson, depth_tagged, Json.depthMembers_cons, Json.depth_array] at hn
    exact ofJsonWithin_types (fun _ _ => rfl) (listWithin_toJson types n (by omega))
  | .enum values, n + 1, hn => by
    rw [toJson, ofJsonWithin_tagged (by simp)]
    simp [ofMembers, written, required_head, required_tail, Json.asStrings_strings, enumOf,
      Ascending.ofList_toList]
  | .boundary range, n + 1, hn => by
    rw [toJson, ofJsonWithin_tagged (by simp [Boundary.members])]
    simp [ofMembers, written, Boundary.ofMembers_members]
  | .literal values, n + 1, hn => by
    have hvalues := Json.asList_map Literal.ofJson_toJson values
    rw [toJson, ofJsonWithin_tagged (by simp)]
    simp [ofMembers, written, required_head, required_tail, hvalues]
  | .dict k v, n + 1, hn => by
    rw [toJson, depth_tagged, Json.depthMembers_cons, Json.depthMembers_cons] at hn
    have hk := ofJsonWithin_toJson k n (by omega)
    have hv := ofJsonWithin_toJson v n (by omega)
    rw [toJson, ofJsonWithin_tagged (by simp)]
    simp [ofMembers, written, required_head, required_tail, hk, hv, ok_bind]
  | .callable parameters result, n + 1, hn => by
    rw [toJson, depth_tagged, Json.depthMembers_cons, Json.depthMembers_cons,
      Json.depth_array] at hn
    have hparameters := listWithin_toJson parameters n (by omega)
    have hresult := ofJsonWithin_toJson result n (by omega)
    rw [toJson, ofJsonWithin_tagged (by simp)]
    simp [ofMembers, written, required_head, required_tail, hparameters, hresult, ok_bind]
  | .final inner, n + 1, hn => by
    rw [toJson, depth_tagged, Json.depthMembers_cons] at hn
    have hinner := ofJsonWithin_toJson inner n (by omega)
    rw [toJson, ofJsonWithin_tagged (by simp)]
    simp [ofMembers, written, required_head, required_tail, hinner]
  | .typeVar name Option.none, n + 1, hn => by
    rw [toJson, ofJsonWithin_tagged (by simp [boundMembers])]
    simp [ofMembers, written, optionWritten, boundMembers, required_head, required_tail,
      optional_of_lacks, Json.asString, ok_bind]
  | .typeVar name (some t), n + 1, hn => by
    rw [toJson, depth_tagged, boundMembers, Json.depthMembers_cons, Json.depthMembers_cons] at hn
    have ht := ofJsonWithin_toJson t n (by omega)
    have hbound : Json.asOption (ofJsonWithin n) t.toJson = .ok (some t.written) := by
      rw [Json.asOption_of_ne_null t.toJson_ne_null, ht]
      rfl
    rw [toJson, ofJsonWithin_tagged (by simp [boundMembers])]
    simp [ofMembers, written, optionWritten, boundMembers, required_head, required_tail,
      optional_head, optional_tail, Json.asString, hbound, ok_bind]

theorem listWithin_toJson : (ts : List ApiType) → (n : Nat) →
    Json.depthItems (listToJson ts) ≤ n →
    Json.asList (ofJsonWithin n) (.array (listToJson ts)) = .ok (writtenIn ts)
  | [], _, _ => rfl
  | t :: ts, n, hn => by
    rw [listToJson, Json.depthItems_cons] at hn
    have ht := ofJsonWithin_toJson t n (by omega)
    have hts := listWithin_toJson ts n (by omega)
    exact Json.asList_cons ht hts
end

mutual
theorem isReadable_toJson : (t : ApiType) → t.toJson.isReadable = true
  | .unknown | .named .. => by simp [toJson, tagged]
  | .namedSequence _ _ types | .list types | .set types | .tuple types | .union types => by
    simpa [toJson, tagged] using readable_listToJson types
  | .enum values => by simp [toJson, tagged]
  | .boundary range => by simpa [toJson, tagged] using range.readable_members
  | .literal values => by simp [toJson, tagged, Literal.isReadable_toJson]
  | .dict k v => by simp [toJson, tagged, isReadable_toJson k, isReadable_toJson v]
  | .callable parameters result => by
    simpa [toJson, tagged, isReadable_toJson result] using readable_listToJson parameters
  | .final inner => by simp [toJson, tagged, isReadable_toJson inner]
  | .typeVar _ Option.none => by simp [toJson, tagged, boundMembers]
  | .typeVar _ (some t) => by simp [toJson, tagged, boundMembers, isReadable_toJson t]

theorem readable_listToJson : (ts : List ApiType) → ∀ v ∈ listToJson ts, v.isReadable = true
  | [] => by simp [listToJson]
  | t :: ts => by simpa [listToJson, isReadable_toJson t] using readable_listToJson ts
end

/-- Reading the JSON of a type gives the type as its JSON says it. -/
theorem ofJson_toJson (t : ApiType) : ofJson t.toJson = .ok t.written := by
  rw [ofJson, Json.readable, if_pos t.isReadable_toJson]
  exact ofJsonWithin_toJson t _ (Nat.le_refl _)

mutual
theorem faithful_toJson : (t : ApiType) → (∀ x ∈ t.doubles, x.isFinite = true → x.Rereads) →
    t.toJson.Faithful
  | .unknown, _ | .named .., _ => by simp [toJson, tagged]
  | .namedSequence _ _ types, h | .list types, h | .set types, h | .tuple types, h
  | .union types, h => by
    simp only [doubles] at h
    simpa [toJson, tagged] using faithful_listToJson types h
  | .enum values, _ => by simp [toJson, tagged]
  | .boundary range, h => by
    simp only [doubles] at h
    simpa [toJson, tagged] using Boundary.faithful_members h
  | .literal values, h => by
    rw [doubles, List.forall_mem_flatMap] at h
    simpa [toJson, tagged] using fun l hl => Literal.faithful_toJson (h l hl)
  | .dict k v, h => by
    rw [doubles, List.forall_mem_append] at h
    simp [toJson, tagged, faithful_toJson k h.1, faithful_toJson v h.2]
  | .callable parameters result, h => by
    rw [doubles, List.forall_mem_append] at h
    simpa [toJson, tagged, faithful_toJson result h.2] using faithful_listToJson parameters h.1
  | .final inner, h => by
    rw [doubles] at h
    simp [toJson, tagged, faithful_toJson inner h]
  | .typeVar _ Option.none, h => by simp [toJson, tagged, boundMembers]
  | .typeVar _ (some t), h => by
    rw [doubles, optionDoubles] at h
    simp [toJson, tagged, boundMembers, faithful_toJson t h]

theorem faithful_listToJson : (ts : List ApiType) →
    (∀ x ∈ doublesIn ts, x.isFinite = true → x.Rereads) → ∀ v ∈ listToJson ts, v.Faithful
  | [], _ => by simp [listToJson]
  | t :: ts, h => by
    rw [doublesIn, List.forall_mem_append] at h
    simpa [listToJson, faithful_toJson t h.1] using faithful_listToJson ts h.2
end

mutual
theorem written_written : (t : ApiType) → t.written.written = t.written
  | .unknown | .named .. | .enum _ => by simp [written]
  | .namedSequence _ _ types | .list types | .set types | .tuple types | .union types => by
    simp [written, writtenIn_writtenIn types]
  | .boundary range => by simp [written, Boundary.written_written]
  | .literal values => by simp [written, Literal.written_written]
  | .dict k v => by simp [written, written_written k, written_written v]
  | .callable parameters result => by
    simp [written, writtenIn_writtenIn parameters, written_written result]
  | .final inner => by simp [written, written_written inner]
  | .typeVar _ Option.none => by simp [written, optionWritten]
  | .typeVar _ (some t) => by simp [written, optionWritten, written_written t]

theorem writtenIn_writtenIn : (ts : List ApiType) → writtenIn (writtenIn ts) = writtenIn ts
  | [] => rfl
  | t :: ts => by simp [writtenIn, written_written t, writtenIn_writtenIn ts]
end

mutual
/-- A type loses nothing in JSON exactly if its doubles are finite. -/
theorem written_eq_self_iff : (t : ApiType) →
    (t.written = t ↔ ∀ x ∈ t.doubles, x.isFinite = true)
  | .unknown | .named .. | .enum _ => by simp [written, doubles]
  | .namedSequence _ _ types | .list types | .set types | .tuple types | .union types => by
    simp [written, doubles, writtenIn_eq_self_iff types]
  | .boundary range => by simp [written, doubles, Boundary.written_eq_self_iff]
  | .literal values => by
    rw [doubles, List.forall_mem_flatMap]
    simp only [written, ← Literal.written_eq_self_iff, literal.injEq, Ascending.map_eq_self_iff]
  | .dict k v => by
    rw [doubles, List.forall_mem_append, ← written_eq_self_iff k, ← written_eq_self_iff v]
    simp [written]
  | .callable parameters result => by
    rw [doubles, List.forall_mem_append, ← writtenIn_eq_self_iff parameters,
      ← written_eq_self_iff result]
    simp [written]
  | .final inner => by simp [written, doubles, written_eq_self_iff inner]
  | .typeVar _ Option.none => by simp [written, optionWritten, doubles, optionDoubles]
  | .typeVar _ (some t) => by
    simp [written, optionWritten, doubles, optionDoubles, written_eq_self_iff t]

theorem writtenIn_eq_self_iff : (ts : List ApiType) →
    (writtenIn ts = ts ↔ ∀ x ∈ doublesIn ts, x.isFinite = true)
  | [] => by simp [writtenIn, doublesIn]
  | t :: ts => by
    rw [doublesIn, List.forall_mem_append, ← written_eq_self_iff t, ← writtenIn_eq_self_iff ts]
    simp [writtenIn]
end

end ApiType

/-! ## 6. Optional types and sets of types -/

namespace ApiType

theorem asOption_toJson (t : ApiType) :
    Json.asOption ofJson t.toJson = .ok (some t.written) := by
  rw [Json.asOption_of_ne_null t.toJson_ne_null, t.ofJson_toJson]
  rfl

theorem optional_toJson {key : String} {a : Option ApiType} {ms : Json.Members}
    (h : Json.Lacks ms key) :
    Json.optional (Json.omitNone key toJson a ++ ms) key ofJson = .ok (optionWritten a) := by
  rw [Json.optional_omitNone asOption_toJson h]
  cases a <;> rfl

theorem optional_toJson_last {key : String} {a : Option ApiType} :
    Json.optional (Json.omitNone key toJson a) key ofJson = .ok (optionWritten a) := by
  rw [← List.append_nil (Json.omitNone key toJson a), optional_toJson Json.lacks_nil]

theorem faithful_option {a : Option ApiType}
    (h : ∀ x ∈ optionDoubles a, x.isFinite = true → x.Rereads) : ∀ t ∈ a, t.toJson.Faithful := by
  rintro t rfl
  exact faithful_toJson t h

theorem optionWritten_eq_self_iff {a : Option ApiType} :
    optionWritten a = a ↔ ∀ x ∈ optionDoubles a, x.isFinite = true := by
  cases a with
  | none => simp [optionWritten, optionDoubles]
  | some t => simp [optionWritten, optionDoubles, written_eq_self_iff]

end ApiType

namespace TypeSet

def written (s : TypeSet) : TypeSet := Ascending.ofList (s.toList.map ApiType.written)

theorem ofJson_toJson (s : TypeSet) : ofJson s.toJson = .ok s.written := by
  rw [ofJson, toJson, Json.asList_map ApiType.ofJson_toJson]
  rfl

theorem faithful_toJson {s : TypeSet}
    (h : ∀ x ∈ s.toList.flatMap ApiType.doubles, x.isFinite = true → x.Rereads) :
    s.toJson.Faithful := by
  rw [List.forall_mem_flatMap] at h
  simpa [toJson] using fun t ht => t.faithful_toJson (h t ht)

theorem written_eq_self_iff {s : TypeSet} :
    written s = s ↔ ∀ x ∈ s.toList.flatMap ApiType.doubles, x.isFinite = true := by
  rw [written, Ascending.ofList_map_eq_self_iff ApiType.written_written, List.forall_mem_flatMap]
  simp only [ApiType.written_eq_self_iff]

end TypeSet

end ApiSurface
