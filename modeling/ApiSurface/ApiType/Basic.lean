import ApiSurface.Literal
/-!
# Types of the API model

One closed algebra for every type that the model speaks of.  `enum` and `boundary` only come from
prose: a set of admissible texts and a numeric range.

The constructors take any members.  `unionOf`, `setOf` and `literalOf` build the canonical forms:
members sorted and without repetition, no union directly inside a union, and no union of fewer than
two.

Types are ordered by `key`: the constructor, then its fields in order, a list before every longer
one that it begins.  The key determines the type (`key_injective`), so this order is total and its
equality is equality of types.
-/

namespace ApiSurface

inductive BoundaryBase
  | int
  | float
  deriving DecidableEq

/-- A numeric range; a side without a bound is open. -/
structure Boundary where
  base : BoundaryBase
  min : Option Binary64
  minInclusive : Bool
  max : Option Binary64
  maxInclusive : Bool
  deriving DecidableEq

inductive ApiType
  /-- Nothing is known. -/
  | unknown
  | named (name qname : String)
  /-- A generic type with its arguments. -/
  | namedSequence (name qname : String) (types : List ApiType)
  | enum (values : NameSet)
  | boundary (range : Boundary)
  | list (types : List ApiType)
  | set (types : List ApiType)
  | tuple (types : List ApiType)
  | union (types : List ApiType)
  | dict (key value : ApiType)
  | callable (parameters : List ApiType) (result : ApiType)
  | literal (values : List Literal)
  | final (inner : ApiType)
  | typeVar (name : String) (bound : Option ApiType)

/-! ## 1. Keys -/

def optionKey (f : α → Key) : Option α → Key
  | none => [0]
  | some a => 1 :: f a

/-- The elements of a list, each announced by a one, and a closing zero. -/
def listKey (f : α → Key) : List α → Key
  | [] => [0]
  | a :: l => 1 :: f a ++ listKey f l

def BoundaryBase.rank : BoundaryBase → Int
  | .int => 0
  | .float => 1

def Boundary.key (b : Boundary) : Key :=
  b.base.rank :: optionKey Literal.floatKey b.min ++ flagKey b.minInclusive
    ++ optionKey Literal.floatKey b.max ++ flagKey b.maxInclusive

namespace ApiType

mutual
def key : ApiType → Key
  | .unknown => [0]
  | .named name qname => 1 :: textKey name ++ textKey qname
  | .namedSequence name qname types => 2 :: textKey name ++ textKey qname ++ keys types
  | .enum values => 3 :: listKey textKey values.toList
  | .boundary range => 4 :: range.key
  | .list types => 5 :: keys types
  | .set types => 6 :: keys types
  | .tuple types => 7 :: keys types
  | .union types => 8 :: keys types
  | .dict k v => 9 :: k.key ++ v.key
  | .callable parameters result => 10 :: keys parameters ++ result.key
  | .literal values => 11 :: listKey Literal.key values
  | .final inner => 12 :: inner.key
  | .typeVar name bound => 13 :: textKey name ++ boundKey bound

def keys : List ApiType → Key
  | [] => [0]
  | t :: more => 1 :: t.key ++ keys more

def boundKey : Option ApiType → Key
  | none => [0]
  | some t => 1 :: t.key
end

end ApiType

/-! ## 2. The key determines the type

Each key is read off the front of any list that begins with it, so a key followed by others can be
taken apart again. -/

/-- A function whose values can be read off the front of a list. -/
def Readable (f : α → Key) : Prop :=
  ∀ a b x y, f a ++ x = f b ++ y → a = b ∧ x = y

theorem Readable.injective {f : α → Key} (h : Readable f) {a b : α} (k : f a = f b) : a = b :=
  (h a b [] [] (by simpa using k)).1

theorem readable_textKey : Readable textKey := by
  intro s t x y h
  have main : ∀ (a b : List Char) (x y : Key),
      a.map (fun c => (c.toNat : Int) + 1) ++ [0] ++ x
        = b.map (fun c => (c.toNat : Int) + 1) ++ [0] ++ y → a = b ∧ x = y := by
    intro a
    induction a with
    | nil =>
      intro b x y h
      cases b with
      | nil => simpa using h
      | cons c b => simp at h; omega
    | cons c a ih =>
      intro b x y h
      cases b with
      | nil => simp at h; omega
      | cons d b =>
        simp only [List.map_cons, List.cons_append, List.cons.injEq] at h
        have hcd : c = d := Char.ext (UInt32.toNat_inj.1 (by
          have := h.1
          simp only [Char.toNat] at this
          omega))
        obtain ⟨hab, hxy⟩ := ih b x y h.2
        exact ⟨by rw [hcd, hab], hxy⟩
  obtain ⟨hst, hxy⟩ := main s.toList t.toList x y h
  exact ⟨String.toList_inj.1 hst, hxy⟩

theorem readable_flagKey : Readable flagKey := by
  intro a b x y h
  cases a <;> cases b <;> simp_all [flagKey]

theorem orderKey_injective {x y : Binary64} (h : x.orderKey = y.orderKey) : x = y := by
  have hx := x.bits.toNat_lt
  have hy := y.bits.toNat_lt
  have key : x.bits.toNat = y.bits.toNat := by
    simp only [Binary64.orderKey, Binary64.isNegative, Binary64.signBit] at h
    by_cases hx : 0x8000000000000000 ≤ x.bits.toNat <;>
      by_cases hy : 0x8000000000000000 ≤ y.bits.toNat <;>
      simp only [hx, hy, decide_true, decide_false, if_true, Bool.false_eq_true, if_false] at h <;>
      omega
  cases x; cases y
  exact congrArg _ (UInt64.toNat_inj.1 key)

theorem readable_floatKey : Readable Literal.floatKey := by
  intro a b x y h
  simp only [Literal.floatKey, List.cons_append, List.nil_append, List.cons.injEq] at h
  exact ⟨orderKey_injective (by omega), h.2⟩

theorem readable_literalKey : Readable Literal.key := by
  intro a b x y h
  cases a <;> cases b <;> simp only [Literal.key, List.cons_append, List.nil_append,
    List.cons.injEq, true_and] at h <;> try omega
  · obtain ⟨h, k⟩ := readable_flagKey _ _ _ _ h; exact ⟨by rw [h], k⟩
  · exact ⟨congrArg _ (Int64.toInt_inj.1 h.1), h.2⟩
  · obtain ⟨h, k⟩ := readable_floatKey _ _ _ _ h; exact ⟨by rw [h], k⟩
  · obtain ⟨h, k⟩ := readable_textKey _ _ _ _ h; exact ⟨by rw [h], k⟩
  · exact ⟨rfl, h⟩

theorem Readable.option {f : α → Key} (hf : Readable f) : Readable (optionKey f) := by
  intro a b x y h
  cases a <;> cases b <;> simp only [optionKey, List.cons_append, List.nil_append,
    List.cons.injEq, true_and] at h <;> try omega
  · exact ⟨rfl, h⟩
  · obtain ⟨h, k⟩ := hf _ _ _ _ h; exact ⟨by rw [h], k⟩

theorem Readable.list {f : α → Key} (hf : Readable f) : Readable (listKey f) := by
  intro a
  induction a with
  | nil =>
    intro b x y h
    cases b <;> simp only [listKey, List.cons_append, List.nil_append, List.cons.injEq,
      true_and] at h
    · exact ⟨rfl, h⟩
    · omega
  | cons a l ih =>
    intro b x y h
    cases b with
    | nil => simp only [listKey, List.cons_append, List.nil_append, List.cons.injEq] at h; omega
    | cons b m =>
      simp only [listKey, List.cons_append, List.append_assoc, List.cons.injEq, true_and] at h
      obtain ⟨hab, h⟩ := hf _ _ _ _ h
      obtain ⟨hlm, h⟩ := ih _ _ _ h
      exact ⟨by rw [hab, hlm], h⟩

theorem readable_boundaryKey : Readable Boundary.key := by
  intro a b x y h
  obtain ⟨base, min, minInclusive, max, maxInclusive⟩ := a
  obtain ⟨base', min', minInclusive', max', maxInclusive'⟩ := b
  simp only [Boundary.key, List.cons_append, List.append_assoc, List.cons.injEq] at h
  obtain ⟨hbase, h⟩ := h
  obtain ⟨rfl, h₁⟩ := readable_floatKey.option _ _ _ _ h
  obtain ⟨rfl, h₂⟩ := readable_flagKey _ _ _ _ h₁
  obtain ⟨rfl, h₃⟩ := readable_floatKey.option _ _ _ _ h₂
  obtain ⟨rfl, h₄⟩ := readable_flagKey _ _ _ _ h₃
  have : base = base' := by cases base <;> cases base' <;> simp_all [BoundaryBase.rank]
  exact ⟨by rw [this], h₄⟩

namespace ApiType

mutual
theorem readable_key : (s t : ApiType) → (x y : Key) → s.key ++ x = t.key ++ y → s = t ∧ x = y
  | .unknown, t, x, y, h => by
    cases t <;> simp_all [key]
  | .named a b, t, x, y, h => by
    cases t <;> simp only [key, List.cons_append, List.append_assoc, List.cons.injEq, true_and,
      List.nil_append] at h <;> try omega
    obtain ⟨rfl, h₁⟩ := readable_textKey _ _ _ _ h
    obtain ⟨rfl, h₂⟩ := readable_textKey _ _ _ _ h₁
    exact ⟨rfl, h₂⟩
  | .namedSequence a b l, t, x, y, h => by
    cases t <;> simp only [key, List.cons_append, List.append_assoc, List.cons.injEq, true_and,
      List.nil_append] at h <;> try omega
    obtain ⟨rfl, h₁⟩ := readable_textKey _ _ _ _ h
    obtain ⟨rfl, h₂⟩ := readable_textKey _ _ _ _ h₁
    obtain ⟨rfl, h₃⟩ := readable_keys l _ _ _ h₂
    exact ⟨rfl, h₃⟩
  | .enum values, t, x, y, h => by
    cases t <;> simp only [key, List.cons_append, List.append_assoc, List.cons.injEq, true_and,
      List.nil_append] at h <;> try omega
    obtain ⟨k, h⟩ := readable_textKey.list _ _ _ _ h
    exact ⟨by rw [Ascending.eq_of_toList_eq k], h⟩
  | .boundary range, t, x, y, h => by
    cases t <;> simp only [key, List.cons_append, List.append_assoc, List.cons.injEq, true_and,
      List.nil_append] at h <;> try omega
    obtain ⟨rfl, h₁⟩ := readable_boundaryKey _ _ _ _ h
    exact ⟨rfl, h₁⟩
  | .list l, t, x, y, h => by
    cases t <;> simp only [key, List.cons_append, List.append_assoc, List.cons.injEq, true_and,
      List.nil_append] at h <;> try omega
    obtain ⟨rfl, h₁⟩ := readable_keys l _ _ _ h
    exact ⟨rfl, h₁⟩
  | .set l, t, x, y, h => by
    cases t <;> simp only [key, List.cons_append, List.append_assoc, List.cons.injEq, true_and,
      List.nil_append] at h <;> try omega
    obtain ⟨rfl, h₁⟩ := readable_keys l _ _ _ h
    exact ⟨rfl, h₁⟩
  | .tuple l, t, x, y, h => by
    cases t <;> simp only [key, List.cons_append, List.append_assoc, List.cons.injEq, true_and,
      List.nil_append] at h <;> try omega
    obtain ⟨rfl, h₁⟩ := readable_keys l _ _ _ h
    exact ⟨rfl, h₁⟩
  | .union l, t, x, y, h => by
    cases t <;> simp only [key, List.cons_append, List.append_assoc, List.cons.injEq, true_and,
      List.nil_append] at h <;> try omega
    obtain ⟨rfl, h₁⟩ := readable_keys l _ _ _ h
    exact ⟨rfl, h₁⟩
  | .dict k v, t, x, y, h => by
    cases t <;> simp only [key, List.cons_append, List.append_assoc, List.cons.injEq, true_and,
      List.nil_append] at h <;> try omega
    obtain ⟨rfl, h₁⟩ := readable_key k _ _ _ h
    obtain ⟨rfl, h₂⟩ := readable_key v _ _ _ h₁
    exact ⟨rfl, h₂⟩
  | .callable l r, t, x, y, h => by
    cases t <;> simp only [key, List.cons_append, List.append_assoc, List.cons.injEq, true_and,
      List.nil_append] at h <;> try omega
    obtain ⟨rfl, h₁⟩ := readable_keys l _ _ _ h
    obtain ⟨rfl, h₂⟩ := readable_key r _ _ _ h₁
    exact ⟨rfl, h₂⟩
  | .literal values, t, x, y, h => by
    cases t <;> simp only [key, List.cons_append, List.append_assoc, List.cons.injEq, true_and,
      List.nil_append] at h <;> try omega
    obtain ⟨rfl, h₁⟩ := readable_literalKey.list _ _ _ _ h
    exact ⟨rfl, h₁⟩
  | .final i, t, x, y, h => by
    cases t <;> simp only [key, List.cons_append, List.append_assoc, List.cons.injEq, true_and,
      List.nil_append] at h <;> try omega
    obtain ⟨rfl, h₁⟩ := readable_key i _ _ _ h
    exact ⟨rfl, h₁⟩
  | .typeVar a b, t, x, y, h => by
    cases t <;> simp only [key, List.cons_append, List.append_assoc, List.cons.injEq, true_and,
      List.nil_append] at h <;> try omega
    obtain ⟨rfl, h₁⟩ := readable_textKey _ _ _ _ h
    obtain ⟨rfl, h₂⟩ := readable_boundKey b _ _ _ h₁
    exact ⟨rfl, h₂⟩

theorem readable_keys : (l m : List ApiType) → (x y : Key) → keys l ++ x = keys m ++ y →
    l = m ∧ x = y
  | [], m, x, y, h => by
    cases m <;> simp_all [keys]
  | s :: l, m, x, y, h => by
    cases m <;> simp only [keys, List.cons_append, List.append_assoc, List.cons.injEq, true_and,
      List.nil_append] at h <;> try omega
    obtain ⟨rfl, h₁⟩ := readable_key s _ _ _ h
    obtain ⟨rfl, h₂⟩ := readable_keys l _ _ _ h₁
    exact ⟨rfl, h₂⟩

theorem readable_boundKey : (a b : Option ApiType) → (x y : Key) →
    boundKey a ++ x = boundKey b ++ y → a = b ∧ x = y
  | none, b, x, y, h => by
    cases b <;> simp_all [boundKey]
  | some s, b, x, y, h => by
    cases b <;> simp only [boundKey, List.cons_append, List.cons.injEq,
      true_and, List.nil_append] at h <;> try omega
    obtain ⟨rfl, h₁⟩ := readable_key s _ _ _ h
    exact ⟨rfl, h₁⟩
end

theorem key_injective {s t : ApiType} (h : s.key = t.key) : s = t :=
  Readable.injective readable_key h

instance : DecidableEq ApiType := fun s t =>
  if h : s.key = t.key then isTrue (key_injective h) else isFalse fun k => h (congrArg key k)

end ApiType

/-- A set of types in ascending order. -/
abbrev TypeSet := Ascending ApiType.key

/-- A set of literal values in ascending order. -/
abbrev LiteralSet := Ascending Literal.key

namespace ApiType

/-! ## 3. Canonical forms -/

def builtin (name : String) : ApiType := .named name ("builtins." ++ name)

def noneName : String := "builtins.None"

def none : ApiType := .named "None" noneName

def any : ApiType := .named "Any" "typing.Any"

def isNone : ApiType → Bool
  | .named _ qname => qname == noneName
  | _ => false

def isUnknown : ApiType → Bool
  | .unknown => true
  | _ => false

/-- The members that a type brings into a union. -/
def unionMembers : ApiType → List ApiType
  | .union types => types
  | t => [t]

/-- The union of the members of all the types: nothing at all is `unknown`, and a single member
stands for itself. -/
def unionOf (types : List ApiType) : ApiType :=
  match (Ascending.ofList (types.flatMap unionMembers) : TypeSet).toList with
  | [] => .unknown
  | [t] => t
  | members => .union members

def setOf (types : List ApiType) : ApiType := .set (Ascending.ofList types : TypeSet).toList

def literalOf (values : List Literal) : ApiType :=
  .literal (Ascending.ofList values : LiteralSet).toList

def enumOf (values : List String) : ApiType := .enum (Ascending.ofList values)

/-- For a union with a none among its members, the union of the others. -/
def splitOptional : ApiType → Option ApiType
  | .union types =>
    if types.any isNone then some (unionOf (types.filter fun t => !t.isNone)) else Option.none
  | _ => Option.none

mutual
/-- The type variables in a type, those in the bounds of others included. -/
def typeVars : ApiType → List ApiType
  | .namedSequence _ _ types => typeVarsIn types
  | .list types => typeVarsIn types
  | .set types => typeVarsIn types
  | .tuple types => typeVarsIn types
  | .union types => typeVarsIn types
  | .dict k v => k.typeVars ++ v.typeVars
  | .callable parameters result => typeVarsIn parameters ++ result.typeVars
  | .final inner => inner.typeVars
  | .typeVar name bound => .typeVar name bound :: typeVarsInBound bound
  | _ => []

def typeVarsIn : List ApiType → List ApiType
  | [] => []
  | t :: more => t.typeVars ++ typeVarsIn more

def typeVarsInBound : Option ApiType → List ApiType
  | Option.none => []
  | some t => t.typeVars
end

end ApiType

/-- The type of a literal value. -/
def Literal.type : Literal → ApiType
  | .bool _ => .builtin "bool"
  | .int _ => .builtin "int"
  | .float _ => .builtin "float"
  | .str _ => .builtin "str"
  | .none => .none

end ApiSurface
