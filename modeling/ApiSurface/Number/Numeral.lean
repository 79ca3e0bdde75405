import ApiSurface.Number.Binary64
import ApiSurface.Text.Basic
/-!
# Numerals

Two ways to read a decimal numeral as a double.  In prose (`ofProse?`) the result is the double
nearest to the written number, and the words for infinity and not-a-number count as numerals.  In
data (`ofData?`) the digits are first collected into a sixty-four-bit significand, surplus digits
being dropped, and the rounded significand is then multiplied or divided by a rounded power of ten;
a number too large for a double is refused.
-/

namespace ApiSurface.Numeral

/-- The value of a list of ASCII digits. -/
def natOf (digits : List Char) : Nat :=
  digits.foldl (fun n c => n * 10 + (c.toNat - '0'.toNat)) 0

/-- Takes the digits at the start of a text. -/
def takeDigits (t : List Char) : List Char × List Char :=
  (t.takeWhile Text.isAsciiDigit, t.dropWhile Text.isAsciiDigit)

/-! ## 1. Numerals in prose -/

/-- The double nearest to `digits * 10 ^ exponent`.  Exponents far outside the range of doubles
are answered without computing the power. -/
def nearest (negative : Bool) (digits : Nat) (exponent : Int) : Binary64 :=
  let size : Int := (Nat.toDigits 10 digits).length
  if digits = 0 then Binary64.ofParts negative 0
  else if 400 < exponent + size then Binary64.infinity negative
  else if exponent + size < -400 then Binary64.ofParts negative 0
  else if 0 ≤ exponent then Binary64.ofRatio negative (digits * Nat.pow 10 exponent.toNat) 1
  else Binary64.ofRatio negative digits (Nat.pow 10 (-exponent).toNat)

/-- An exponent part `e`, sign, digits, which may be absent but not incomplete. -/
def exponentOf? : List Char → Option Int
  | [] => some 0
  | c :: t =>
    if c == 'e' || c == 'E' then
      let (negative, digits) := match t with
        | '-' :: d => (true, d)
        | '+' :: d => (false, d)
        | d => (false, d)
      if digits.isEmpty || !digits.all Text.isAsciiDigit then none
      else some (if negative then -(natOf digits : Int) else natOf digits)
    else none

/-- A numeral without sign: digits with a point anywhere among or beside them, then an exponent. -/
def unsigned? (negative : Bool) (t : List Char) : Option Binary64 :=
  let (whole, rest) := takeDigits t
  let (fraction, rest) := match rest with
    | '.' :: more => takeDigits more
    | more => ([], more)
  if whole.isEmpty && fraction.isEmpty then none
  else (exponentOf? rest).map fun e =>
    nearest negative (natOf (whole ++ fraction)) (e - fraction.length)

/-- Reads a numeral as it may stand in a sentence. -/
def ofProse? (t : List Char) : Option Binary64 :=
  let (negative, body) := match t with
    | '-' :: more => (true, more)
    | '+' :: more => (false, more)
    | more => (false, more)
  let word := String.ofList (body.map Text.lower)
  if word == "inf" || word == "infinity" then some (Binary64.infinity negative)
  else if word == "nan" then some (Binary64.nan negative)
  else unsigned? negative body

/-! ## 2. Numerals in data -/

/-- The largest significand. -/
def largest : Nat := 0xffffffffffffffff

/-- Appends digits to a significand as long as it fits, and counts the digits left over. -/
def collect (significand : Nat) : List Char → Nat × Nat
  | [] => (significand, 0)
  | c :: more =>
    let next := significand * 10 + (c.toNat - '0'.toNat)
    if next ≤ largest then collect next more else (significand, more.length + 1)

/-- Multiplies by a power of ten, or divides by as many as the exponent asks for; none if the
result is too large. -/
def scale? (x : Binary64) (exponent : Int) : Option Binary64 :=
  if exponent.natAbs ≤ 308 then
    if 0 ≤ exponent then
      let y := x.mul (Binary64.powTen exponent.toNat)
      if y.isInfinite then none else some y
    else some (x.div (Binary64.powTen (-exponent).toNat))
  else if x.isZero then some x
  else if 0 ≤ exponent then none
  else scale? (x.div (Binary64.powTen 308)) (exponent + 308)
termination_by exponent.natAbs
decreasing_by omega

/-- A numeral of whole digits, fraction digits and a written exponent, as a double. -/
def ofData? (negative : Bool) (whole fraction : List Char) (exponent : Int) : Option Binary64 :=
  let (s, beyond) := collect 0 whole
  let (s, dropped) := collect s fraction
  let e : Int := beyond - (fraction.length - dropped : Nat) + exponent
  (scale? (Binary64.ofNat s) e).map fun x => if negative then x.neg else x

/-- A whole numeral: an integer if it fits sixty-four bits, with or without sign; otherwise, and
for a negative zero, a double. -/
def wholeOf? (negative : Bool) (whole : List Char) : Option (Int ⊕ Binary64) :=
  let n := natOf whole
  if negative then
    if 1 ≤ n && n ≤ 0x8000000000000000 then some (.inl (-n)) else (ofData? true whole [] 0).map .inr
  else if n ≤ largest then some (.inl n)
  else (ofData? false whole [] 0).map .inr

end ApiSurface.Numeral
