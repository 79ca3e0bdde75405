import ApiSurface.Number.Binary64
/-!
# Doubles in decimal

The text of a double uses the fewest digits that read back as the same double, and of those the
decimal nearest to it.  `shortest` finds them in exact arithmetic: for one digit, two digits and so
on it tries the two neighbours of the value on that decimal grid.  Where the digits go is decided by
a `Layout`; there is one for displayed values and one for documents.
-/

namespace ApiSurface.Decimal

/-! ## 1. The fewest digits that read back -/

/-- A positive decimal `digits * 10 ^ exponent`. -/
structure Scaled where
  digits : Nat
  exponent : Int
  deriving DecidableEq

/-- The real numbers that round to a given double, as quotients over one denominator: from `low` to
`high`, with the ends included when `closed`. -/
structure Interval where
  low : Nat
  value : Nat
  high : Nat
  denominator : Nat
  closed : Bool

/-- The rounding interval of a finite positive double.  Below a power of two the doubles lie twice
as dense, so there the lower half is half as wide. -/
def interval (x : Binary64) : Interval :=
  let m := x.mantissa
  let up := Nat.pow 2 x.exponent.toNat
  let narrow := m == Binary64.hiddenBit && x.exponent != -1074
  { low := (4 * m - if narrow then 1 else 2) * up
    value := 4 * m * up
    high := (4 * m + 2) * up
    denominator := 4 * Nat.pow 2 (-x.exponent).toNat
    closed := m % 2 == 0 }

/-- Whether `n * 10 ^ k` lies in the interval. -/
def Interval.holds (i : Interval) (n : Nat) (k : Int) : Bool :=
  let point := n * Nat.pow 10 k.toNat * i.denominator
  let scale := Nat.pow 10 (-k).toNat
  if i.closed then i.low * scale ≤ point && point ≤ i.high * scale
  else i.low * scale < point && point < i.high * scale

/-- The multiple of `10 ^ k` just below the value. -/
def Interval.floor (i : Interval) (k : Int) : Nat :=
  i.value * Nat.pow 10 (-k).toNat / (i.denominator * Nat.pow 10 k.toNat)

/-- How the value lies to the middle between `n * 10 ^ k` and its upper neighbour. -/
def Interval.compareMiddle (i : Interval) (n : Nat) (k : Int) : Ordering :=
  let value := 2 * i.value * Nat.pow 10 (-k).toNat
  let middle := (2 * n + 1) * Nat.pow 10 k.toNat * i.denominator
  if value < middle then .lt else if middle < value then .gt else .eq

/-- Which neighbour a value in the exact middle takes. -/
inductive Tie
  | up
  | toEven
  deriving DecidableEq

/-- The neighbour of the value on the grid of `10 ^ k` that lies in the interval, the nearer one if
both do. -/
def Interval.onGrid? (i : Interval) (tie : Tie) (k : Int) : Option Nat :=
  let n := i.floor k
  match i.holds n k && n != 0, i.holds (n + 1) k with
  | false, false => none
  | true, false => some n
  | false, true => some (n + 1)
  | true, true =>
    match i.compareMiddle n k with
    | .lt => some n
    | .gt => some (n + 1)
    | .eq =>
      match tie with
      | .up => some (n + 1)
      | .toEven => some (n + n % 2)

/-- The first grid with a hit, from the coarse `10 ^ k` to finer ones. -/
def Interval.search (i : Interval) (tie : Tie) : (fuel : Nat) → (k : Int) → Scaled
  | 0, k => ⟨i.floor k, k⟩
  | fuel + 1, k =>
    match i.onGrid? tie k with
    | some n => ⟨n, k⟩
    | none => i.search tie fuel (k - 1)

/-- The decimal exponent of the leading digit, or one more. -/
def Interval.magnitude (i : Interval) : Int :=
  (Nat.toDigits 10 (i.value / i.denominator + 1)).length
    - (Nat.toDigits 10 (i.denominator / (i.value + 1) + 1)).length + 1

/-- Drops zeros at the end of the digits into the exponent. -/
def Scaled.strip : (fuel : Nat) → Scaled → Scaled
  | 0, d => d
  | fuel + 1, d =>
    if d.digits != 0 && d.digits % 10 == 0 then Scaled.strip fuel ⟨d.digits / 10, d.exponent + 1⟩
    else d

/-- The shortest decimal that reads back as the finite positive double.  Seventeen digits always
suffice, so a search over twenty-four grids from above the leading digit ends with a hit. -/
def shortest (tie : Tie) (x : Binary64) : Scaled :=
  let i := interval x
  Scaled.strip 24 (i.search tie 24 i.magnitude)

/-! ## 2. Layouts -/

/-- Where the digits of a double go. -/
structure Layout where
  tie : Tie
  /-- The least exponent of the leading digit that is written without an exponent mark. -/
  leastPlain : Int
  /-- The greatest such exponent. -/
  greatestPlain : Int
  /-- Whether a positive exponent shows its sign. -/
  plusSign : Bool

def zeros (n : Nat) : List Char := List.replicate n '0'

/-- Digits with the point after the place of `10 ^ 0`, and at least one digit on either side. -/
def plain (digits : List Char) (exponent : Int) : List Char :=
  if 0 ≤ exponent then digits ++ zeros exponent.toNat ++ ['.', '0']
  else
    let below := (-exponent).toNat
    if below < digits.length then
      digits.take (digits.length - below) ++ '.' :: digits.drop (digits.length - below)
    else '0' :: '.' :: zeros (below - digits.length) ++ digits

/-- One digit, a point if more follow, and the exponent of the first digit. -/
def scientific (layout : Layout) (digits : List Char) (leading : Int) : List Char :=
  let mantissa := match digits with
    | d :: [] => [d]
    | d :: more => d :: '.' :: more
    | [] => []
  let sign := if leading < 0 then ['-'] else if layout.plusSign then ['+'] else []
  mantissa ++ 'e' :: sign ++ Nat.toDigits 10 leading.natAbs

/-- The text of a double. -/
def write (layout : Layout) (x : Binary64) : String :=
  let sign := if x.isNegative then ['-'] else []
  if x.isNaN then "NaN"
  else if x.isInfinite then String.ofList (sign ++ "inf".toList)
  else if x.isZero then String.ofList (sign ++ "0.0".toList)
  else
    let d := shortest layout.tie x
    let digits := Nat.toDigits 10 d.digits
    let leading := d.exponent + digits.length - 1
    String.ofList <| sign ++
      if layout.leastPlain ≤ leading && leading ≤ layout.greatestPlain then plain digits d.exponent
      else scientific layout digits leading

end ApiSurface.Decimal
