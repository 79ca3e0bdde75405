import ApiSurface.Proofs.ReadNumbers
import ApiSurface.Proofs.Tables
import Mathlib.Order.Defs.LinearOrder
/-!
# The order of types and values

Types and literal values are sorted by their keys.  The order meant is the structural one:
constructors in the order in which they are declared, then field by field from the left, a list
before every longer one that it begins, and doubles by the IEEE total order.  It is written down
here as a comparison, `ApiType.structuralOrder`, and keys are shown to follow it.  `Orders` is what
goes through an induction: two keys compare as their elements do, and what follows the keys decides
between equal elements.  Keys are totally ordered and determine their elements, so the comparison
is a total order in which only equal elements compare equal.
-/

namespace ApiSurface

/-! ## 1. Comparing keys -/

def Key.order (s t : Key) : Ordering :=
  if Key.before s t then .lt else if s = t then .eq else .gt

namespace Key

theorem ne_of_before {s t : Key} (h : Key.before s t = true) : s ≠ t := by
  rintro rfl
  rw [Key.before_irrefl] at h
  cases h

theorem order_self (s : Key) : Key.order s s = .eq := by
  simp [Key.order, Key.before_irrefl]

theorem order_of_before {s t : Key} (h : Key.before s t = true) : Key.order s t = .lt := by
  simp [Key.order, h]

theorem order_of_after {s t : Key} (h : Key.before t s = true) : Key.order s t = .gt := by
  simp [Key.order, Key.not_before_of_before h, (ne_of_before h).symm]

theorem order_eq_lt {s t : Key} : Key.order s t = .lt ↔ Key.before s t = true := by
  rcases Key.before_total s t with h | rfl | h
  · simp [order_of_before h, h]
  · simp [order_self, Key.before_irrefl]
  · simp [order_of_after h, Key.not_before_of_before h]

theorem eq_of_order {s t : Key} (h : Key.order s t = .eq) : s = t := by
  rcases Key.before_total s t with k | k | k
  · rw [order_of_before k] at h
    cases h
  · exact k
  · rw [order_of_after k] at h
    cases h

theorem order_swap (s t : Key) : Key.order s t = (Key.order t s).swap := by
  rcases Key.before_total s t with h | rfl | h
  · rw [order_of_before h, order_of_after h]
    rfl
  · rw [order_self]
    rfl
  · rw [order_of_before h, order_of_after h]
    rfl

theorem isLE_order {s t : Key} : (Key.order s t).isLE = true ↔ Key.before t s = false := by
  rw [order_swap, ← Bool.not_eq_true, ← order_eq_lt]
  cases Key.order t s <;> decide

instance : Std.TransCmp Key.order where
  eq_swap := order_swap _ _
  isLE_trans {s t u} hst htu := by
    rw [isLE_order] at hst htu ⊢
    rw [← Bool.not_eq_true] at hst htu ⊢
    intro hus
    rcases Key.before_total s t with h | rfl | h
    · exact htu (Key.before_trans hus h)
    · exact htu hus
    · exact hst h

theorem order_cons (a b : Int) (s t : Key) :
    Key.order (a :: s) (b :: t) = (compareOfLessAndEq a b).then (Key.order s t) := by
  simp only [Key.order, Key.before, compareOfLessAndEq, List.cons.injEq, Bool.or_eq_true,
    Bool.and_eq_true, decide_eq_true_eq, beq_iff_eq]
  rcases Int.lt_trichotomy a b with h | rfl | h
  · simp [h]
  · simp
  · have hlt : ¬ a < b := by omega
    have hne : ¬ a = b := by omega
    simp [hlt, hne]

/-- Equal first entries do not matter. -/
@[simp] theorem order_cons_self (a : Int) (s t : Key) :
    Key.order (a :: s) (a :: t) = Key.order s t := by
  rw [order_cons, compareOfLessAndEq, if_neg (Int.lt_irrefl a), if_pos rfl, Ordering.eq_then]

end Key

/-- Keys that compare as their elements do, and what follows them decides between equal elements. -/
def Orders (f : α → Key) (cmp : α → α → Ordering) : Prop :=
  ∀ a b x y, Key.order (f a ++ x) (f b ++ y) = (cmp a b).then (Key.order x y)

namespace Orders

variable {α : Type} {f : α → Key} {cmp : α → α → Ordering}

theorem order_eq (h : Orders f cmp) (a b : α) : Key.order (f a) (f b) = cmp a b := by
  have key := h a b [] []
  rwa [List.append_nil, List.append_nil, Key.order_self, Ordering.then_eq] at key

theorem before_iff (h : Orders f cmp) (a b : α) :
    Key.before (f a) (f b) = true ↔ cmp a b = .lt := by
  rw [← Key.order_eq_lt, h.order_eq]

theorem transCmp (h : Orders f cmp) : Std.TransCmp cmp where
  eq_swap {a b} := by
    rw [← h.order_eq a b, ← h.order_eq b a]
    exact Key.order_swap _ _
  isLE_trans {a b c} := by
    rw [← h.order_eq a b, ← h.order_eq b c, ← h.order_eq a c]
    exact Std.TransCmp.isLE_trans

theorem lawfulEqCmp (h : Orders f cmp) (hf : Readable f) : Std.LawfulEqCmp cmp where
  compare_self {a} := by rw [← h.order_eq a a, Key.order_self]
  eq_of_compare {a b} k := by
    rw [← h.order_eq a b] at k
    exact hf.injective (Key.eq_of_order k)

end Orders

theorem compare_congr {α β : Type} [LT α] [DecidableLT α] [DecidableEq α] [LT β] [DecidableLT β]
    [DecidableEq β] {a b : α} {c d : β} (hlt : a < b ↔ c < d) (heq : a = b ↔ c = d) :
    compareOfLessAndEq a b = compareOfLessAndEq c d := by
  simp only [compareOfLessAndEq, hlt, heq]

/-! ## 2. Doubles -/

namespace Binary64

/-- Negative before positive, and each side by the bits below the sign: upwards from zero on the
positive side, downwards to zero on the negative one. -/
def totalOrder (x y : Binary64) : Ordering :=
  match x.isNegative, y.isNegative with
  | true, false => .lt
  | false, true => .gt
  | false, false => compareOfLessAndEq x.magnitudeBits y.magnitudeBits
  | true, true => compareOfLessAndEq y.magnitudeBits x.magnitudeBits

theorem orderKey_of_negative {x : Binary64} (h : x.isNegative = true) :
    (x.orderKey : Int) = signBit - 1 - x.magnitudeBits := by
  have hlt := x.bits.toNat_lt
  rw [orderKey, if_pos h]
  rw [isNegative, decide_eq_true_eq] at h
  simp only [magnitudeBits, signBit] at h ⊢
  omega

theorem orderKey_of_positive {x : Binary64} (h : x.isNegative = false) :
    (x.orderKey : Int) = signBit + x.magnitudeBits := by
  rw [orderKey, h, if_neg Bool.false_ne_true]
  rw [isNegative, decide_eq_false_iff_not] at h
  rw [magnitudeBits, Nat.mod_eq_of_lt (Nat.not_le.1 h)]
  omega

theorem compare_orderKey (x y : Binary64) :
    compareOfLessAndEq (x.orderKey : Int) y.orderKey = x.totalOrder y := by
  cases hx : x.isNegative <;> cases hy : y.isNegative <;> simp only [totalOrder, hx, hy]
  · rw [orderKey_of_positive hx, orderKey_of_positive hy]
    exact compare_congr (by omega) (by omega)
  · rw [orderKey_of_positive hx, orderKey_of_negative hy, compareOfLessAndEq, if_neg (by omega),
      if_neg (by omega)]
  · rw [orderKey_of_negative hx, orderKey_of_positive hy, compareOfLessAndEq, if_pos (by omega)]
  · rw [orderKey_of_negative hx, orderKey_of_negative hy]
    exact compare_congr (by omega) (by omega)

/-- The value of a finite double without its sign, as a multiple of the least positive one,
`2 ^ -1074`. -/
def magnitude (x : Binary64) : Nat := x.mantissa * Nat.pow 2 (x.exponent + 1074).toNat

/-- The value of a finite double, as a multiple of the least positive one. -/
def value (x : Binary64) : Int := if x.isNegative then -(x.magnitude : Int) else x.magnitude

theorem magnitude_of_lt {x : Binary64} (h : x.magnitudeBits < hiddenBit) :
    x.magnitude = x.magnitudeBits := by
  rw [magnitude, mantissa, exponent, if_pos h, if_pos h]
  exact Nat.mul_one _

theorem magnitude_of_le {x : Binary64} (h : hiddenBit ≤ x.magnitudeBits) :
    x.magnitude = (x.magnitudeBits % hiddenBit + hiddenBit)
      * Nat.pow 2 (x.magnitudeBits / hiddenBit - 1) := by
  have hexponent : ((x.magnitudeBits / hiddenBit : Nat) - 1075 + 1074 : Int).toNat
      = x.magnitudeBits / hiddenBit - 1 := by omega
  rw [magnitude, mantissa, exponent, if_neg (Nat.not_lt.2 h), if_neg (Nat.not_lt.2 h), hexponent]

/-- The bits below the sign grow with the magnitude. -/
theorem magnitude_lt {x y : Binary64} (h : x.magnitudeBits < y.magnitudeBits) :
    x.magnitude < y.magnitude := by
  have hpos : 0 < hiddenBit := by decide
  by_cases hy : y.magnitudeBits < hiddenBit
  · rwa [magnitude_of_lt hy, magnitude_of_lt (Nat.lt_trans h hy)]
  rw [magnitude_of_le (Nat.not_lt.1 hy)]
  by_cases hx : x.magnitudeBits < hiddenBit
  · rw [magnitude_of_lt hx]
    calc x.magnitudeBits < hiddenBit := hx
      _ ≤ y.magnitudeBits % hiddenBit + hiddenBit := Nat.le_add_left _ _
      _ ≤ _ := Nat.le_mul_of_pos_right _ (Nat.two_pow_pos _)
  rw [magnitude_of_le (Nat.not_lt.1 hx)]
  have hdiv : 1 ≤ x.magnitudeBits / hiddenBit := (Nat.le_div_iff_mul_le hpos).2 (by omega)
  rcases Nat.lt_or_eq_of_le (Nat.div_le_div_right (c := hiddenBit) (Nat.le_of_lt h)) with hlt | heq
  · have hstep : x.magnitudeBits / hiddenBit - 1 + 1 ≤ y.magnitudeBits / hiddenBit - 1 := by omega
    calc (x.magnitudeBits % hiddenBit + hiddenBit) * Nat.pow 2 (x.magnitudeBits / hiddenBit - 1)
        < (hiddenBit * 2) * Nat.pow 2 (x.magnitudeBits / hiddenBit - 1) :=
          Nat.mul_lt_mul_of_pos_right (by have := Nat.mod_lt x.magnitudeBits hpos; omega)
            (Nat.two_pow_pos _)
      _ = hiddenBit * Nat.pow 2 (x.magnitudeBits / hiddenBit - 1 + 1) := by
          rw [Nat.mul_assoc, Nat.mul_comm 2]
          rfl
      _ ≤ hiddenBit * Nat.pow 2 (y.magnitudeBits / hiddenBit - 1) :=
          Nat.mul_le_mul_left _ (Nat.pow_le_pow_right (by decide) hstep)
      _ ≤ _ := Nat.mul_le_mul_right _ (Nat.le_add_left _ _)
  · have hmod : x.magnitudeBits % hiddenBit < y.magnitudeBits % hiddenBit := by
      have hxsum := Nat.div_add_mod x.magnitudeBits hiddenBit
      have hysum := Nat.div_add_mod y.magnitudeBits hiddenBit
      rw [heq] at hxsum
      omega
    rw [heq]
    exact Nat.mul_lt_mul_of_pos_right (Nat.add_lt_add_right hmod _) (Nat.two_pow_pos _)

theorem magnitudeBits_lt_of_magnitude {x y : Binary64} (h : x.magnitude < y.magnitude) :
    x.magnitudeBits < y.magnitudeBits := by
  rcases Nat.lt_trichotomy x.magnitudeBits y.magnitudeBits with hlt | heq | hgt
  · exact hlt
  · rw [magnitude, magnitude, mantissa, mantissa, exponent, exponent, heq] at h
    exact absurd h (Nat.lt_irrefl _)
  · exact absurd h (Nat.lt_asymm (magnitude_lt hgt))

/-- The clauses of the IEEE total order.  Infinities lie beyond all numbers and not-a-numbers beyond
the infinities, each on the side of its sign.  Of two not-a-numbers on one side the one with the
larger bits is further out, so the quiet ones enclose the signalling ones. -/
structure IsTotalOrder (cmp : Binary64 → Binary64 → Ordering) : Prop where
  number : ∀ x y, x.isFinite = true → y.isFinite = true → x.value < y.value → cmp x y = .lt
  zero : ∀ x y, x.isZero = true → y.isZero = true → x.isNegative = true → y.isNegative = false →
    cmp x y = .lt
  infinity : ∀ x y, x.isInfinite = true → y.isFinite = true →
    cmp x y = if x.isNegative then .lt else .gt
  nan : ∀ x y, x.isNaN = true → y.isNaN = false → cmp x y = if x.isNegative then .lt else .gt
  nanSign : ∀ x y, x.isNaN = true → y.isNaN = true → y.isNegative ≠ x.isNegative →
    cmp x y = if x.isNegative then .lt else .gt
  payload : ∀ x y, x.isNaN = true → y.isNaN = true → y.isNegative = x.isNegative →
    cmp x y = if x.isNegative then compareOfLessAndEq y.magnitudeBits x.magnitudeBits
      else compareOfLessAndEq x.magnitudeBits y.magnitudeBits

theorem totalOrder_of_sign_eq {x y : Binary64} (h : y.isNegative = x.isNegative) :
    x.totalOrder y = if x.isNegative then compareOfLessAndEq y.magnitudeBits x.magnitudeBits
      else compareOfLessAndEq x.magnitudeBits y.magnitudeBits := by
  cases hx : x.isNegative <;> simp [totalOrder, h, hx]

theorem totalOrder_of_sign_ne {x y : Binary64} (h : y.isNegative ≠ x.isNegative) :
    x.totalOrder y = if x.isNegative then .lt else .gt := by
  cases hx : x.isNegative <;> cases hy : y.isNegative <;> simp_all [totalOrder]

/-- What is larger without its sign lies further out. -/
theorem totalOrder_of_magnitudeBits_lt {x y : Binary64} (h : y.magnitudeBits < x.magnitudeBits) :
    x.totalOrder y = if x.isNegative then .lt else .gt := by
  by_cases hsign : y.isNegative = x.isNegative
  · rw [totalOrder_of_sign_eq hsign, compareOfLessAndEq, compareOfLessAndEq, if_pos h,
      if_neg (Nat.lt_asymm h), if_neg (Nat.ne_of_gt h)]
  · exact totalOrder_of_sign_ne hsign

theorem totalOrder_of_value_lt {x y : Binary64} (h : x.value < y.value) :
    x.totalOrder y = .lt := by
  rw [value, value] at h
  cases hx : x.isNegative <;> cases hy : y.isNegative <;>
    simp only [hx, hy, if_true, Bool.false_eq_true, if_false] at h
  · have hbits := magnitudeBits_lt_of_magnitude (show x.magnitude < y.magnitude by omega)
    simp [totalOrder, hx, hy, compareOfLessAndEq, hbits]
  · omega
  · simp [totalOrder, hx, hy]
  · have hbits := magnitudeBits_lt_of_magnitude (show y.magnitude < x.magnitude by omega)
    simp [totalOrder, hx, hy, compareOfLessAndEq, hbits]

theorem isTotalOrder_totalOrder : IsTotalOrder totalOrder where
  number x y _ _ h := totalOrder_of_value_lt h
  zero x y _ _ hx hy := by simp [totalOrder, hx, hy]
  infinity x y hx hy := by
    rw [isInfinite, beq_iff_eq] at hx
    rw [isFinite, decide_eq_true_eq] at hy
    exact totalOrder_of_magnitudeBits_lt (hx ▸ hy)
  nan x y hx hy := by
    rw [isNaN, decide_eq_true_eq] at hx
    rw [isNaN, decide_eq_false_iff_not, Nat.not_lt] at hy
    exact totalOrder_of_magnitudeBits_lt (Nat.lt_of_le_of_lt hy hx)
  nanSign x y _ _ h := totalOrder_of_sign_ne h
  payload x y _ _ h := totalOrder_of_sign_eq h

theorem orders_floatKey : Orders Literal.floatKey totalOrder := by
  intro x y k l
  rw [Literal.floatKey, Literal.floatKey, ← compare_orderKey]
  exact Key.order_cons _ _ _ _

end Binary64

/-! ## 3. Literal values -/

theorem orders_textKey : Orders textKey fun s t => compareOfLessAndEq s t := by
  intro s t x y
  have hinj : textKey s ++ x = textKey t ++ y ↔ s = t ∧ x = y := by
    refine ⟨readable_textKey s t x y, ?_⟩
    rintro ⟨rfl, rfl⟩
    rfl
  simp only [Key.order, Key.before_textKey, hinj, compareOfLessAndEq]
  by_cases hlt : s < t
  · simp [hlt]
  · by_cases heq : s = t
    · simp [heq]
    · simp [hlt, heq]

def flagOrder (a b : Bool) : Ordering := compareOfLessAndEq a.toNat b.toNat

theorem orders_flagKey : Orders flagKey flagOrder := by
  intro a b x y
  cases a <;> cases b <;> exact Key.order_cons _ _ _ _

def Literal.structuralOrder : Literal → Literal → Ordering
  | .bool a, .bool b => flagOrder a b
  | .int n, .int m => compareOfLessAndEq n.toInt m.toInt
  | .float x, .float y => x.totalOrder y
  | .str s, .str t => compareOfLessAndEq s t
  | v, w => compareOfLessAndEq v.ctorIdx w.ctorIdx

theorem orders_literalKey : Orders Literal.key Literal.structuralOrder := by
  intro v w x y
  cases v with
  | bool a =>
    cases w with
    | bool b => exact (Key.order_cons_self _ _ _).trans (orders_flagKey a b x y)
    | _ => rfl
  | int n =>
    cases w with
    | int m => exact (Key.order_cons_self _ _ _).trans (Key.order_cons _ _ _ _)
    | _ => rfl
  | float a =>
    cases w with
    | float b => exact (Key.order_cons_self _ _ _).trans (Binary64.orders_floatKey a b x y)
    | _ => rfl
  | str s =>
    cases w with
    | str t => exact (Key.order_cons_self _ _ _).trans (orders_textKey s t x y)
    | _ => rfl
  | none =>
    cases w with
    | none => exact Key.order_cons_self _ _ _
    | _ => rfl

/-! ## 4. Types -/

def optionOrder (cmp : α → α → Ordering) : Option α → Option α → Ordering
  | none, none => .eq
  | none, some _ => .lt
  | some _, none => .gt
  | some a, some b => cmp a b

theorem Orders.option {α : Type} {f : α → Key} {cmp : α → α → Ordering} (h : Orders f cmp) :
    Orders (optionKey f) (optionOrder cmp) := by
  intro a b x y
  cases a with
  | none =>
    cases b with
    | none => exact Key.order_cons_self _ _ _
    | some b => rfl
  | some a =>
    cases b with
    | none => rfl
    | some b => exact (Key.order_cons_self _ _ _).trans (h a b x y)

theorem Orders.list {α : Type} {f : α → Key} {cmp : α → α → Ordering} (h : Orders f cmp) :
    Orders (listKey f) (List.compareLex cmp) := by
  intro l
  induction l with
  | nil =>
    intro m x y
    cases m with
    | nil => exact Key.order_cons_self _ _ _
    | cons b m => rfl
  | cons a l ih =>
    intro m x y
    cases m with
    | nil => rfl
    | cons b m =>
      simp only [listKey, List.cons_append, List.append_assoc, Key.order_cons_self, h _ _ _ _, ih,
        List.compareLex_cons_cons, Ordering.then_assoc]

def Boundary.structuralOrder (a b : Boundary) : Ordering :=
  (compareOfLessAndEq a.base.ctorIdx b.base.ctorIdx)
    |>.then (optionOrder Binary64.totalOrder a.min b.min)
    |>.then (flagOrder a.minInclusive b.minInclusive)
    |>.then (optionOrder Binary64.totalOrder a.max b.max)
    |>.then (flagOrder a.maxInclusive b.maxInclusive)

theorem orders_boundaryKey : Orders Boundary.key Boundary.structuralOrder := by
  intro a b x y
  have hbase : compareOfLessAndEq a.base.rank b.base.rank
      = compareOfLessAndEq a.base.ctorIdx b.base.ctorIdx := by
    cases a.base <;> cases b.base <;> rfl
  simp only [Boundary.key, Boundary.structuralOrder, List.cons_append, List.append_assoc,
    Key.order_cons, hbase, Binary64.orders_floatKey.option _ _ _ _, orders_flagKey _ _ _ _,
    Ordering.then_assoc]

namespace ApiType

mutual
def structuralOrder : ApiType → ApiType → Ordering
  | .named name qname, .named name' qname' =>
    (compareOfLessAndEq name name').then (compareOfLessAndEq qname qname')
  | .namedSequence name qname types, .namedSequence name' qname' types' =>
    (compareOfLessAndEq name name')
      |>.then (compareOfLessAndEq qname qname')
      |>.then (structuralOrders types types')
  | .enum values, .enum values' =>
    List.compareLex (fun s t => compareOfLessAndEq s t) values.toList values'.toList
  | .boundary range, .boundary range' => range.structuralOrder range'
  | .list types, .list types' => structuralOrders types types'
  | .set types, .set types' => structuralOrders types types'
  | .tuple types, .tuple types' => structuralOrders types types'
  | .union types, .union types' => structuralOrders types types'
  | .dict k v, .dict k' v' => (k.structuralOrder k').then (v.structuralOrder v')
  | .callable parameters result, .callable parameters' result' =>
    (structuralOrders parameters parameters').then (result.structuralOrder result')
  | .literal values, .literal values' =>
    List.compareLex Literal.structuralOrder values values'
  | .final inner, .final inner' => inner.structuralOrder inner'
  | .typeVar name bound, .typeVar name' bound' =>
    (compareOfLessAndEq name name').then (structuralOrderOfBounds bound bound')
  | s, t => compareOfLessAndEq s.ctorIdx t.ctorIdx

def structuralOrders : List ApiType → List ApiType → Ordering
  | [], [] => .eq
  | [], _ :: _ => .lt
  | _ :: _, [] => .gt
  | t :: more, t' :: more' => (t.structuralOrder t').then (structuralOrders more more')

def structuralOrderOfBounds : Option ApiType → Option ApiType → Ordering
  | Option.none, Option.none => .eq
  | Option.none, some _ => .lt
  | some _, Option.none => .gt
  | some t, some t' => t.structuralOrder t'
end

mutual
theorem orders_key : (s t : ApiType) → (x y : Key) →
    Key.order (s.key ++ x) (t.key ++ y) = (s.structuralOrder t).then (Key.order x y)
  | .unknown, t, x, y => by
    cases t with
    | unknown => exact Key.order_cons_self _ _ _
    | _ => rfl
  | .named name qname, t, x, y => by
    cases t with
    | named name' qname' =>
      simp only [key, structuralOrder, List.cons_append, List.append_assoc, Key.order_cons_self,
        orders_textKey _ _ _ _, Ordering.then_assoc]
    | _ => rfl
  | .namedSequence name qname types, t, x, y => by
    cases t with
    | namedSequence name' qname' types' =>
      simp only [key, structuralOrder, List.cons_append, List.append_assoc, Key.order_cons_self,
        orders_textKey _ _ _ _, orders_keys types, Ordering.then_assoc]
    | _ => rfl
  | .enum values, t, x, y => by
    cases t with
    | enum values' =>
      simp only [key, structuralOrder, List.cons_append, Key.order_cons_self,
        orders_textKey.list _ _ _ _]
    | _ => rfl
  | .boundary range, t, x, y => by
    cases t with
    | boundary range' =>
      simp only [key, structuralOrder, List.cons_append, Key.order_cons_self,
        orders_boundaryKey _ _ _ _]
    | _ => rfl
  | .list types, t, x, y => by
    cases t with
    | list types' =>
      simp only [key, structuralOrder, List.cons_append, Key.order_cons_self, orders_keys types]
    | _ => rfl
  | .set types, t, x, y => by
    cases t with
    | set types' =>
      simp only [key, structuralOrder, List.cons_append, Key.order_cons_self, orders_keys types]
    | _ => rfl
  | .tuple types, t, x, y => by
    cases t with
    | tuple types' =>
      simp only [key, structuralOrder, List.cons_append, Key.order_cons_self, orders_keys types]
    | _ => rfl
  | .union types, t, x, y => by
    cases t with
    | union types' =>
      simp only [key, structuralOrder, List.cons_append, Key.order_cons_self, orders_keys types]
    | _ => rfl
  | .dict k v, t, x, y => by
    cases t with
    | dict k' v' =>
      simp only [key, structuralOrder, List.cons_append, List.append_assoc, Key.order_cons_self,
        orders_key k, orders_key v, Ordering.then_assoc]
    | _ => rfl
  | .callable parameters result, t, x, y => by
    cases t with
    | callable parameters' result' =>
      simp only [key, structuralOrder, List.cons_append, List.append_assoc, Key.order_cons_self,
        orders_keys parameters, orders_key result, Ordering.then_assoc]
    | _ => rfl
  | .literal values, t, x, y => by
    cases t with
    | literal values' =>
      simp only [key, structuralOrder, List.cons_append, Key.order_cons_self,
        orders_literalKey.list _ _ _ _]
    | _ => rfl
  | .final inner, t, x, y => by
    cases t with
    | final inner' =>
      simp only [key, structuralOrder, List.cons_append, Key.order_cons_self, orders_key inner]
    | _ => rfl
  | .typeVar name bound, t, x, y => by
    cases t with
    | typeVar name' bound' =>
      simp only [key, structuralOrder, List.cons_append, List.append_assoc, Key.order_cons_self,
        orders_textKey _ _ _ _, orders_boundKey bound, Ordering.then_assoc]
    | _ => rfl

theorem orders_keys : (l m : List ApiType) → (x y : Key) →
    Key.order (keys l ++ x) (keys m ++ y) = (structuralOrders l m).then (Key.order x y)
  | [], m, x, y => by
    cases m with
    | nil => exact Key.order_cons_self _ _ _
    | cons t m => rfl
  | s :: l, m, x, y => by
    cases m with
    | nil => rfl
    | cons t m =>
      simp only [keys, structuralOrders, List.cons_append, List.append_assoc, Key.order_cons_self,
        orders_key s, orders_keys l, Ordering.then_assoc]

theorem orders_boundKey : (a b : Option ApiType) → (x y : Key) →
    Key.order (boundKey a ++ x) (boundKey b ++ y)
      = (structuralOrderOfBounds a b).then (Key.order x y)
  | Option.none, b, x, y => by
    cases b with
    | none => exact Key.order_cons_self _ _ _
    | some t => rfl
  | some s, b, x, y => by
    cases b with
    | none => rfl
    | some t =>
      simp only [boundKey, structuralOrderOfBounds, List.cons_append, Key.order_cons_self,
        orders_key s]
end

end ApiType

/-- The comparison of types and that of literal values are total orders in which only equal elements
compare equal, and they are the orders in which sets are kept; the doubles among them are in the
IEEE total order. -/
theorem structuralOrder_total :
    (Std.TransCmp ApiType.structuralOrder ∧ Std.LawfulEqCmp ApiType.structuralOrder)
      ∧ (Std.TransCmp Literal.structuralOrder ∧ Std.LawfulEqCmp Literal.structuralOrder)
      ∧ (∀ s t : ApiType, Key.before s.key t.key = true ↔ s.structuralOrder t = .lt)
      ∧ (∀ v w : Literal, Key.before v.key w.key = true ↔ v.structuralOrder w = .lt)
      ∧ Binary64.IsTotalOrder fun x y => Literal.structuralOrder (.float x) (.float y) :=
  ⟨⟨Orders.transCmp ApiType.orders_key, Orders.lawfulEqCmp ApiType.orders_key ApiType.readable_key⟩,
    ⟨orders_literalKey.transCmp, orders_literalKey.lawfulEqCmp readable_literalKey⟩,
    Orders.before_iff ApiType.orders_key, orders_literalKey.before_iff,
    Binary64.isTotalOrder_totalOrder⟩

example : Literal.structuralOrder (.float (.ofParts true 0)) (.float .zero) = .lt := by decide

end ApiSurface
