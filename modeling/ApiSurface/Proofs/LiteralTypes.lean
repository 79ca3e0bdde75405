import ApiSurface.Proofs.InferredSlots
import ApiSurface.Proofs.ResultNames
import Mathlib.Algebra.Ring.Commute
import Mathlib.Algebra.Ring.Int.Defs
/-!
# Literals and their types

An integer is a literal if it fits sixty-four bits with sign.  Minus signs are taken one by one: a
number under a sign is a literal if the number without the sign is one and its negation fits.  So
no negation overflows, but a number may be lost on the way although it fits in the end.  Whether an
expression is an integer at all is seen through one sign only, unless it is a literal.

What is a literal matters for parameters.  The type of a parameter is that of its default, which
only a literal gives; attributes and results ask for the type and not for the value, so they have
one also where an integer does not fit.
-/

namespace ApiSurface

/-! ## 1. Integers of sixty-four bits -/

namespace Literal

theorem fitsInt64_iff {k : Int} : fitsInt64 k = true ↔ -2 ^ 63 ≤ k ∧ k < 2 ^ 63 := by
  simp only [fitsInt64, Bool.and_eq_true, decide_eq_true_eq]
  omega

theorem fitsInt64_iff_exists {k : Int} : fitsInt64 k = true ↔ ∃ n : Int64, n.toInt = k := by
  rw [fitsInt64_iff]
  constructor
  · rintro ⟨hlow, hhigh⟩
    exact ⟨Int64.ofInt k, Int64.toInt_ofInt_of_le hlow hhigh⟩
  · rintro ⟨n, rfl⟩
    exact ⟨n.le_toInt, n.toInt_lt⟩

/-- That an integer fits sixty-four bits, and so does its negation. -/
def FitsEitherSign (k : Int) : Prop := -2 ^ 63 < k ∧ k < 2 ^ 63

instance : DecidablePred FitsEitherSign := fun _ => inferInstanceAs (Decidable (_ ∧ _))

/-- An integer has a negation if that fits, and it is the negation of its value. -/
theorem negate?_int {n : Int64} {x : Literal} :
    (Literal.int n).negate? = some x ↔ ∃ m : Int64, x = .int m ∧ m.toInt = -n.toInt := by
  have hleast : (n == Int64.minValue) = true ↔ n.toInt = -2 ^ 63 := by
    rw [beq_iff_eq, ← Int64.toInt_inj, Int64.toInt_minValue]
  rw [negate?]
  split
  · rename_i heq
    constructor
    · intro h
      cases h
    · rintro ⟨m, -, hm⟩
      have hlt := m.toInt_lt
      rw [hm, hleast.1 heq] at hlt
      omega
  · rename_i hne
    have hn : (-n).toInt = -n.toInt := by
      have hlow := n.le_toInt
      have hhigh := n.toInt_lt
      have hstrict := mt hleast.2 hne
      rw [Int64.toInt_neg]
      apply Int.bmod_eq_of_le
      · omega
      · omega
    constructor
    · intro h
      cases h
      exact ⟨-n, rfl, hn⟩
    · rintro ⟨m, rfl, hm⟩
      rw [Int64.toInt_inj.1 (hm.trans hn.symm)]

end Literal

/-- An integer that fits is the literal of its value, and any other is none. -/
theorem Numeric.literal?_int {k : Int} {x : Literal} :
    (Numeric.int k).literal? = some x ↔ ∃ n : Int64, x = .int n ∧ n.toInt = k := by
  rw [literal?]
  split
  · rename_i hfits
    obtain ⟨hlow, hhigh⟩ := Literal.fitsInt64_iff.1 hfits
    have hvalue := Int64.toInt_ofInt_of_le hlow hhigh
    constructor
    · intro h
      cases h
      exact ⟨_, rfl, hvalue⟩
    · rintro ⟨n, rfl, hn⟩
      rw [Int64.toInt_inj.1 (hn.trans hvalue.symm)]
  · rename_i hbeyond
    constructor
    · intro h
      cases h
    · rintro ⟨n, -, hn⟩
      exact absurd (Literal.fitsInt64_iff_exists.2 ⟨n, hn⟩) hbeyond

/-- Whether a number as it was written is an integer that fits. -/
def Numeric.fits : Numeric → Bool
  | .int k => Literal.fitsInt64 k
  | .float _ => false

theorem Numeric.literal?_eq_none_iff {k : Numeric} : k.literal? = none ↔ k.fits = false := by
  cases k <;> simp [literal?, fits]

/-! ## 2. Integers under minus signs -/

namespace Expression

open Literal (FitsEitherSign)

/-- An expression under minus signs, each with the type that was inferred for it. -/
def negated (e : Expression) : (signs : List (Option Annotation)) → Expression
  | [] => e
  | t :: signs => .unary "-" (e.negated signs) t

/-- That an expression has the type of integers and stands for this value: it is the literal of the
value if that fits sixty-four bits, and else no literal. -/
def CapturedAs (e : Expression) (v : Int) : Prop :=
  e.literalType? = some (.builtin "int")
    ∧ ∀ x, e.literal? = some x ↔ ∃ n : Int64, x = .int n ∧ n.toInt = v

section Signs

variable {k : Int} {signs : List (Option Annotation)}

theorem literal?_minus (e : Expression) (t : Option Annotation) :
    (Expression.unary "-" e t).literal? = e.literal?.bind Literal.negate? := rfl

theorem neg_one_pow_mul_eq_or (n : Nat) (k : Int) : (-1) ^ n * k = k ∨ (-1) ^ n * k = -k := by
  rcases neg_one_pow_eq_or Int n with h | h
  · exact .inl (by rw [h, one_mul])
  · exact .inr (by rw [h, neg_one_mul])

theorem exists_toInt_signed (h : FitsEitherSign k) (n : Nat) :
    ∃ m : Int64, m.toInt = (-1) ^ n * k := by
  obtain ⟨hlow, hhigh⟩ := h
  rw [← Literal.fitsInt64_iff_exists, Literal.fitsInt64_iff]
  rcases neg_one_pow_mul_eq_or n k with hsign | hsign
  · rw [hsign]
    omega
  · rw [hsign]
    omega

/-- One sign or more: the number under them has to fit, and so has its negation. -/
theorem literal?_negated {x : Literal} :
    (negated (.int (.int k)) signs).literal? = some x
      ↔ ∃ n : Int64, x = .int n ∧ n.toInt = (-1) ^ signs.length * k
        ∧ (signs = [] ∨ FitsEitherSign k) := by
  induction signs generalizing x with
  | nil => simpa [negated, literal?] using Numeric.literal?_int
  | cons t signs ih =>
    rw [negated, literal?_minus, Option.bind_eq_some_iff, List.length_cons, pow_succ', mul_assoc,
      neg_one_mul]
    constructor
    · rintro ⟨y, hy, hx⟩
      obtain ⟨n, rfl, hn, hsmall⟩ := ih.1 hy
      obtain ⟨m, rfl, hm⟩ := Literal.negate?_int.1 hx
      refine ⟨m, rfl, by rw [hm, hn], .inr ?_⟩
      rcases hsmall with rfl | hsmall
      · -- the first sign, before a number that fits: its negation fits too
        have hk : n.toInt = k := by simpa using hn
        have hlow := n.le_toInt
        have hhigh := n.toInt_lt
        have hneg := m.toInt_lt
        constructor <;> omega
      · exact hsmall
    · rintro ⟨m, rfl, hm, hsmall⟩
      have hsmall := hsmall.resolve_left (by simp)
      obtain ⟨n, hn⟩ := exists_toInt_signed hsmall signs.length
      exact ⟨.int n, ih.2 ⟨n, rfl, hn, .inr hsmall⟩,
        Literal.negate?_int.2 ⟨m, rfl, by rw [hm, hn]⟩⟩

theorem literal?_negated_ne_none (h : FitsEitherSign k) :
    (negated (.int (.int k)) signs).literal? ≠ none := by
  obtain ⟨n, hn⟩ := exists_toInt_signed h signs.length
  rw [literal?_negated.2 ⟨n, rfl, hn, .inr h⟩]
  exact Option.some_ne_none _

/-- Only one sign is looked through. -/
theorem isInteger_negated :
    (negated (.int (.int k)) signs).isInteger = true ↔ signs.length ≤ 1 := by
  rcases signs with - | ⟨t, - | ⟨t', signs⟩⟩
  · simp [negated, isInteger]
  · simp [negated, isInteger]
  · simp [negated, isInteger]

theorem literalType?_negated :
    (negated (.int (.int k)) signs).literalType?
      = if signs.length ≤ 1 ∨ FitsEitherSign k then some (.builtin "int") else none := by
  rw [literalType?]
  cases hliteral : (negated (.int (.int k)) signs).literal? with
  | some x =>
    obtain ⟨n, rfl, -, hsmall⟩ := literal?_negated.1 hliteral
    exact (if_pos (hsmall.imp (fun hnil => by simp [hnil]) id)).symm
  | none =>
    have hlarge : ¬ FitsEitherSign k := fun hsmall => literal?_negated_ne_none hsmall hliteral
    simp only [isInteger_negated, or_iff_left hlarge]

/-- Where the signs lose nothing, or nothing that fits, the value is right. -/
theorem literal?_negated_iff_value :
    (∀ x, (negated (.int (.int k)) signs).literal? = some x
        ↔ ∃ n : Int64, x = .int n ∧ n.toInt = (-1) ^ signs.length * k)
      ↔ (signs = [] ∨ FitsEitherSign k)
        ∨ Literal.fitsInt64 ((-1) ^ signs.length * k) = false := by
  constructor
  · intro h
    rw [or_iff_not_imp_right, Bool.not_eq_false, Literal.fitsInt64_iff_exists]
    rintro ⟨n, hn⟩
    obtain ⟨-, -, -, hkept⟩ := literal?_negated.1 ((h (.int n)).2 ⟨n, rfl, hn⟩)
    exact hkept
  · rintro (hkept | hbeyond) x
    · rw [literal?_negated]
      simp only [hkept, and_true]
    · have hnone : ∀ n : Int64, n.toInt ≠ (-1) ^ signs.length * k := by
        intro n hn
        rw [Literal.fitsInt64_iff_exists.2 ⟨n, hn⟩] at hbeyond
        cases hbeyond
      rw [literal?_negated]
      constructor
      · rintro ⟨n, -, hn, -⟩
        exact absurd hn (hnone n)
      · rintro ⟨n, -, hn⟩
        exact absurd hn (hnone n)

end Signs

/-- **Integers under minus signs.**  Take any integer under any number of minus signs.  If the
expression is a literal, its value is the integer with the sign that they make, so none of them
overflows; it is one if the integer fits and, under a sign, its negation fits as well.  It is known
to be an integer if it is a literal or has one sign at most.  Hence it is captured by its value
exactly if the integer and its negation fit, or it has no sign, or one before another integer than
the first above those that fit. -/
theorem negated_int_captured_iff (k : Int) (signs : List (Option Annotation)) :
    (∀ x, (negated (.int (.int k)) signs).literal? = some x
        ↔ ∃ n : Int64, x = .int n ∧ n.toInt = (-1) ^ signs.length * k
          ∧ (signs = [] ∨ FitsEitherSign k))
      ∧ (negated (.int (.int k)) signs).literalType?
        = (if signs.length ≤ 1 ∨ FitsEitherSign k then some (.builtin "int") else none)
      ∧ ((negated (.int (.int k)) signs).CapturedAs ((-1) ^ signs.length * k)
        ↔ FitsEitherSign k ∨ signs.length = 0 ∨ signs.length = 1 ∧ k ≠ 2 ^ 63) := by
  refine ⟨fun _ => literal?_negated, literalType?_negated, ?_⟩
  rw [CapturedAs, literal?_negated_iff_value, literalType?_negated]
  by_cases hsmall : FitsEitherSign k
  · simp [hsmall]
  · rcases signs with - | ⟨t, - | ⟨t', signs⟩⟩
    · simp
    · have hfits : Literal.fitsInt64 (-k) = false ↔ k ≠ 2 ^ 63 := by
        rw [FitsEitherSign] at hsmall
        rw [← Bool.not_eq_true, Literal.fitsInt64_iff]
        omega
      simp [hsmall, hfits]
    · simp [hsmall]

/-- The first integer above those that fit: its negation fits, but is no literal, and under two
signs it has no type. -/
theorem least_integer_not_captured :
    ¬ (negated (.int (.int (2 ^ 63))) [none]).CapturedAs ((-1) ^ 1 * 2 ^ 63)
      ∧ Literal.fitsInt64 ((-1) ^ 1 * 2 ^ 63) = true
      ∧ (negated (.int (.int (2 ^ 63))) [none, none]).literalType? = none := by
  refine ⟨fun hcaptured => ?_, by decide, by decide⟩
  have hnone : (negated (.int (.int (2 ^ 63))) [none]).literal? = none := by decide
  have hsome := (hcaptured.2 (.int Int64.minValue)).2 ⟨_, rfl, by decide⟩
  rw [hnone] at hsome
  cases hsome

/-! ## 3. Integers that are no literals -/

/-- Whether an expression is an integer that is no literal: one that does not fit, under a minus
sign or not, and the least that fits under a minus sign. -/
def isOversized : Expression → Bool
  | .int k => !k.fits
  | .unary "-" (.int k) _ => !k.fits || k == .int (-0x8000000000000000)
  | _ => false

section Oversized

variable {e : Expression} {t : ApiType}

theorem isInteger_of_literalType? (h : e.literalType? = some t) (hnone : e.literal? = none) :
    e.isInteger = true ∧ t = .builtin "int" := by
  simp only [literalType?, hnone] at h
  split at h
  · rename_i hinteger
    exact ⟨hinteger, (Option.some.inj h).symm⟩
  · cases h

theorem literal?_minus_eq_none_iff {k : Numeric} {type : Option Annotation} :
    (Expression.unary "-" (.int k) type).literal? = none
      ↔ (!k.fits || k == .int (-0x8000000000000000)) = true := by
  cases k with
  | float x => exact iff_of_true rfl rfl
  | int k =>
    have hnone : (negated (.int (.int k)) [type]).literal? = none ↔ ¬ FitsEitherSign k := by
      constructor
      · intro hnone hsmall
        exact literal?_negated_ne_none hsmall hnone
      · intro hlarge
        rw [Option.eq_none_iff_forall_ne_some]
        intro x hx
        obtain ⟨-, -, -, hsmall⟩ := literal?_negated.1 hx
        exact hlarge (hsmall.resolve_left (by simp))
    refine hnone.trans ?_
    rw [Bool.or_eq_true, beq_iff_eq, Numeric.int.injEq, Numeric.fits, Bool.not_eq_true',
      ← Bool.not_eq_true, Literal.fitsInt64_iff, FitsEitherSign]
    omega

theorem literal?_eq_none_iff (h : e.literalType? = some t) :
    e.literal? = none ↔ e.isOversized = true := by
  constructor
  · intro hnone
    obtain ⟨hinteger, -⟩ := isInteger_of_literalType? h hnone
    unfold isInteger at hinteger
    split at hinteger
    · simpa [isOversized] using Numeric.literal?_eq_none_iff.1 hnone
    · exact literal?_minus_eq_none_iff.1 hnone
    · cases hinteger
  · intro hoversized
    unfold isOversized at hoversized
    split at hoversized
    · exact Numeric.literal?_eq_none_iff.2 (by simpa using hoversized)
    · exact literal?_minus_eq_none_iff.2 hoversized
    · cases hoversized

/-- The type of the literal that an expression is, where it has the type of one. -/
theorem map_type_literal? (h : e.literalType? = some t) :
    e.literal?.map Literal.type = if e.isOversized = true then none else some t := by
  cases hliteral : e.literal? with
  | some x =>
    have hsize : ¬ e.isOversized = true := by simp [← literal?_eq_none_iff h, hliteral]
    rw [if_neg hsize, ← h, literalType?, hliteral]
    rfl
  | none =>
    rw [if_pos ((literal?_eq_none_iff h).1 hliteral)]
    rfl

/-- A literal has its type also where it is returned. -/
theorem type?_of_literalType? {s : TypeScope} {owner : Option ClassHead}
    (h : e.literalType? = some t) : e.type? s owner = some t := by
  cases e with
  | tuple | list => cases h
  | name | member | str | int | float | call | op | comparison | unary | conditional | other =>
    simp only [type?, h]

/-- The type of a literal is one slot. -/
theorem components_of_literalType? (h : e.literalType? = some t) : t.components = [t] := by
  cases hliteral : e.literal? with
  | some x =>
    simp only [literalType?, hliteral] at h
    cases h
    cases x <;> rfl
  | none =>
    rw [(isInteger_of_literalType? h hliteral).2]
    rfl

end Oversized

end Expression

/-! ## 4. Parameters, attributes and results -/

theorem Annotation.bind_declared?_eq_none {s : TypeScope} {written o : Option Annotation}
    (h : ∀ d ∈ o, d.isUninformative = true) :
    (o.bind fun d => d.declared? s written) = Option.none := by
  rw [Option.bind_eq_none_iff]
  intro d hd
  exact if_pos (h d hd)

namespace ModuleContext

/-- That every parameter with this default, and with no annotation that says anything, has this
type. -/
def TypesParameters (ctx : ModuleContext) (e : Expression) (type : Option ApiType) : Prop :=
  ∀ (function : FunctionHead) (functionId : String) (owner : Option ClassHead) (a : Argument),
    a.initializer = some e → (∀ d ∈ a.type, d.isUninformative = true) →
    (ctx.parameter function functionId owner a).type = type

/-- That every attribute to which this value is assigned, as a whole or as a part, and with no
annotation that says anything, has this type. -/
def TypesAttributes (ctx : ModuleContext) (e : Expression) (type : Option ApiType) : Prop :=
  ∀ (owner : AttributeOwner) (seen : List String) (a : Assignment),
    ∀ target ∈ freshTargets seen (a.boundTargets owner.receiver), target.value = some e →
    (target.whole = true → ∀ d ∈ a.type, d.isUninformative = true) →
    ctx.attributeRow owner a target ∈ ctx.attributes owner seen a
      ∧ (ctx.attributeRow owner a target).type = type

/-- That every function that does nothing but return this value, and with no annotation that says
anything, has one result, of this type. -/
def TypesResults (ctx : ModuleContext) (e : Expression) (type : ApiType) : Prop :=
  ∀ (function : FunctionHead) (functionId : String) (owner : Option ClassHead),
    (∀ d ∈ function.returnType, d.isUninformative = true) →
    ∃ r, ctx.results function [.returned (some e)] functionId owner = [r] ∧ r.type = type

section Literals

variable {ctx : ModuleContext} {e : Expression} {t : ApiType}

theorem typesParameters_iff {type : Option ApiType} :
    ctx.TypesParameters e type ↔ type = e.literal?.map Literal.type := by
  have htyped : ctx.TypesParameters e (e.literal?.map Literal.type) := by
    intro function functionId owner a hinit htype
    have hdeclared : a.declared? ctx.scope = none := Annotation.bind_declared?_eq_none htype
    simp only [parameter, Argument.type?, Argument.default?, hdeclared, hinit, Option.none_or,
      Option.bind_some]
  constructor
  · -- there is a parameter with this default, and it has one type
    intro h
    let function : FunctionHead := ⟨"", "", [], none, none, false, false, false, [], none, 0⟩
    let a : Argument := ⟨"", .opt, false, false, false, none, none, some e⟩
    rw [← h function "" none a rfl (by simp [a]), htyped function "" none a rfl (by simp [a])]
  · rintro rfl
    exact htyped

theorem typesAttributes (ctx : ModuleContext) (e : Expression) :
    ctx.TypesAttributes e e.literalType? := by
  intro owner seen a target htarget hvalue hwhole
  have hdeclared : (if target.whole = true then
      a.type.bind fun d => d.declared? ctx.scope a.unanalyzedType else none) = none := by
    split
    · rename_i h
      exact Annotation.bind_declared?_eq_none (hwhole h)
    · rfl
  refine ⟨List.mem_map_of_mem htarget, ?_⟩
  simp only [attributeRow, attributeType?, hdeclared, hvalue, Option.none_or, Option.bind_some]

theorem typesResults (ctx : ModuleContext) (h : e.literalType? = some t)
    (hnone : t.isNone = false) : ctx.TypesResults e t := by
  intro function functionId owner hreturn
  have honly : ∀ value, Statement.Returned value [.returned (some e)] ↔ value = some e := by
    intro value
    rw [← mem_returnsIn_iff]
    exact List.mem_singleton
  have hslots : ctx.resultSlots function [.returned (some e)] owner = [t] := by
    rw [resultSlots_of_uninformative hreturn,
      inferredSlots_of_only honly (Expression.type?_of_literalType? h), hnone,
      Expression.components_of_literalType? h]
    rfl
  rw [← List.map_eq_singleton_iff, results, hslots]
  exact nameResults_types functionId (ctx.style.describeResults function) [t]

end Literals

/-- **Types of literals.**  Take any expression with the type of a literal.  Every attribute to
which it is assigned has that type, and so has the one result of every function that returns it,
unless the type is none.  The parameters whose default it is have the type exactly if it is no
oversized integer.  An oversized integer is known to be one but is no literal, and leaves its
parameters without a type. -/
theorem literal_typed_alike_iff (ctx : ModuleContext) {e : Expression} {t : ApiType}
    (h : e.literalType? = some t) :
    ctx.TypesAttributes e (some t) ∧ (t.isNone = false → ctx.TypesResults e t)
      ∧ (ctx.TypesParameters e (some t) ↔ e.isOversized = false)
      ∧ (e.isOversized = true →
        t = .builtin "int" ∧ e.literal? = none ∧ ctx.TypesParameters e none) := by
  refine ⟨h ▸ ctx.typesAttributes e, ctx.typesResults h, ?_, ?_⟩
  · rw [typesParameters_iff, Expression.map_type_literal? h]
    cases e.isOversized <;> simp
  · intro hoversized
    have hliteral := (Expression.literal?_eq_none_iff h).2 hoversized
    refine ⟨(Expression.isInteger_of_literalType? h hliteral).2, hliteral, ?_⟩
    rw [typesParameters_iff, hliteral]
    rfl

end ModuleContext

namespace Sample

/-- An optional parameter with this default. -/
def defaulting (e : Expression) : Argument :=
  ⟨"x", .opt, false, false, false, none, none, some e⟩

theorem negative_number_typed_alike :
    (Expression.unary "-" (.int (.int 7)) none).literalType? = some (.builtin "int")
      ∧ context.TypesAttributes (.unary "-" (.int (.int 7)) none) (some (.builtin "int"))
      ∧ context.TypesResults (.unary "-" (.int (.int 7)) none) (.builtin "int")
      ∧ context.TypesParameters (.unary "-" (.int (.int 7)) none) (some (.builtin "int")) := by
  have htype : (Expression.unary "-" (.int (.int 7)) none).literalType?
      = some (.builtin "int") := by
    decide
  obtain ⟨hattributes, hresults, hparameters, -⟩ := context.literal_typed_alike_iff htype
  exact ⟨htype, hattributes, hresults (by decide), hparameters.2 (by decide)⟩

/-- The first integer above those that fit has a type, and so has the result of returning it, but
not a parameter that it is the default of. -/
theorem oversized_default_untyped :
    (Expression.int (.int (2 ^ 63))).literalType? = some (.builtin "int")
      ∧ (context.results (returning none) [.returned (some (.int (.int (2 ^ 63))))] "m/f" none).map
        ResultRow.type = [.builtin "int"]
      ∧ (context.parameter (returning none) "m/f" none
        (defaulting (.int (.int (2 ^ 63))))).type = none := by
  refine ⟨by decide, by decide +kernel, by decide⟩

end Sample

end ApiSurface
