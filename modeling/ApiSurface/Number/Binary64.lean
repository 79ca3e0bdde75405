/-!
# Doubles as bit patterns

A double is its sixty-four bits.  Two doubles are equal when their bits are, so the two zeros and
the different not-a-numbers stay apart, and `orderKey` orders them all: negative before positive,
each side by magnitude, with the not-a-numbers at the two ends.

Arithmetic is exact until the one rounding at the end: `ofRatio` takes the double nearest to a
quotient of natural numbers, a tie going to the even neighbour, and every operation below is a
quotient handed to it.
-/

namespace ApiSurface

structure Binary64 where
  bits : UInt64
  deriving DecidableEq

namespace Binary64

/-! ## 1. Parts of the pattern -/

def signBit : Nat := 0x8000000000000000

/-- The bit above the fraction, which a normal double does not store. -/
def hiddenBit : Nat := 0x10000000000000

def isNegative (x : Binary64) : Bool := signBit ≤ x.bits.toNat

/-- The bits below the sign. -/
def magnitudeBits (x : Binary64) : Nat := x.bits.toNat % signBit

/-- The magnitude bits of an infinity; larger ones are not-a-numbers. -/
def infinityBits : Nat := 0x7ff * hiddenBit

def isFinite (x : Binary64) : Bool := x.magnitudeBits < infinityBits

def isInfinite (x : Binary64) : Bool := x.magnitudeBits == infinityBits

def isNaN (x : Binary64) : Bool := infinityBits < x.magnitudeBits

def isZero (x : Binary64) : Bool := x.magnitudeBits == 0

def ofParts (negative : Bool) (magnitude : Nat) : Binary64 :=
  ⟨UInt64.ofNat (magnitude + if negative then signBit else 0)⟩

def zero : Binary64 := ofParts false 0

def infinity (negative : Bool) : Binary64 := ofParts negative infinityBits

def nan (negative : Bool) : Binary64 := ofParts negative (infinityBits + hiddenBit / 2)

/-- The same magnitude on the other side of zero. -/
def neg (x : Binary64) : Binary64 := ofParts (!x.isNegative) x.magnitudeBits

/-- A number that orders all doubles. -/
def orderKey (x : Binary64) : Nat :=
  if x.isNegative then 2 * signBit - 1 - x.bits.toNat else x.bits.toNat + signBit

/-- The finite magnitude as `mantissa * 2 ^ exponent`. -/
def mantissa (x : Binary64) : Nat :=
  if x.magnitudeBits < hiddenBit then x.magnitudeBits
  else x.magnitudeBits % hiddenBit + hiddenBit

def exponent (x : Binary64) : Int :=
  if x.magnitudeBits < hiddenBit then -1074 else (x.magnitudeBits / hiddenBit : Nat) - 1075

/-! ## 2. Rounding -/

/-- The quotient rounded to the nearest natural number, a tie to the even one. -/
def roundDiv (num den : Nat) : Nat :=
  let q := num / den
  let r := num % den
  if 2 * r < den then q
  else if den < 2 * r then q + 1
  else q + q % 2

/-- `num / den` divided by `2 ^ e` and rounded. -/
def scaledDiv (num den : Nat) (e : Int) : Nat :=
  if 0 ≤ e then roundDiv num (den * Nat.pow 2 e.toNat)
  else roundDiv (num * Nat.pow 2 (-e).toNat) den

/-- Whether `num / den < 2 ^ (52 + e)`. -/
def isBelow (num den : Nat) (e : Int) : Bool :=
  if 0 ≤ 52 + e then num < den * Nat.pow 2 (52 + e).toNat
  else num * Nat.pow 2 (-(52 + e)).toNat < den

/-- The exponent of the last place of a double near `num / den`. -/
def lastPlace (num den : Nat) : Int :=
  let e : Int := (num.log2 : Int) - den.log2 - 52
  let e := if isBelow num den e then e - 1 else e
  if e < -1074 then -1074 else e

/-- The double nearest to `num / den`; past the largest it is an infinity. -/
def ofRatio (negative : Bool) (num den : Nat) : Binary64 :=
  if num = 0 then ofParts negative 0
  else
    let e := lastPlace num den
    let bits := (e + 1074).toNat * hiddenBit + scaledDiv num den e
    ofParts negative (if bits < infinityBits then bits else infinityBits)

def ofNat (n : Nat) : Binary64 := ofRatio false n 1

def ofInt (n : Int) : Binary64 := ofRatio (n < 0) n.natAbs 1

/-- The finite magnitude as a quotient. -/
def numerator (x : Binary64) : Nat := x.mantissa * Nat.pow 2 x.exponent.toNat

def denominator (x : Binary64) : Nat := Nat.pow 2 (-x.exponent).toNat

/-- The product of two finite magnitudes, rounded. -/
def mul (x y : Binary64) : Binary64 :=
  ofRatio (x.isNegative != y.isNegative) (x.numerator * y.numerator)
    (x.denominator * y.denominator)

/-- The quotient of two finite magnitudes, rounded; the divisor is not zero. -/
def div (x y : Binary64) : Binary64 :=
  ofRatio (x.isNegative != y.isNegative) (x.numerator * y.denominator)
    (x.denominator * y.numerator)

/-- The double nearest to a power of ten. -/
def powTen (n : Nat) : Binary64 := ofNat (Nat.pow 10 n)

end Binary64

end ApiSurface
