import ApiSurface.Json.Parser
import ApiSurface.Literal
import Mathlib.Algebra.Group.Nat.Defs
/-!
# Numerals in documents

A number in a document is a sign and an unsigned numeral: whole digits, perhaps digits after a
point, perhaps an exponent with its sign.  A numeral is read for what it is wherever it ends, that
is before anything that cannot go on as a number (`readNumber_numeral`).

Every finite double is written as such a numeral, with a point or an exponent (`write_numeral`).
For this its digits must not begin with a zero.  They come from a search over decimal grids, so what
has to be shown is that the search does not end with zero.
-/

namespace ApiSurface

/-! ## 1. Digits -/

def IsDigits (t : List Char) : Prop := ∀ c ∈ t, Text.isAsciiDigit c = true

theorem isDigits_toDigits (n : Nat) : IsDigits (Nat.toDigits 10 n) := by
  intro c hc
  exact Nat.isDigit_of_mem_toDigits (by omega) (by omega) hc

theorem isDigits_zero : IsDigits ['0'] := by
  intro c hc
  rw [List.mem_singleton.1 hc]
  decide

theorem IsDigits.append {s t : List Char} (hs : IsDigits s) (ht : IsDigits t) :
    IsDigits (s ++ t) := by
  intro c hc
  rcases List.mem_append.1 hc with h | h
  · exact hs c h
  · exact ht c h

theorem natOf_toDigits (n : Nat) : Numeral.natOf (Nat.toDigits 10 n) = n := by
  have h := @Nat.ofDigitChars_ten_toDigits n
  rw [Nat.ofDigitChars_eq_foldl] at h
  simpa only [Numeral.natOf, Nat.mul_comm] using h

theorem toDigits_no_leading_zero (n : Nat) (d : Char) (more : List Char) :
    Nat.toDigits 10 n ≠ '0' :: d :: more := by
  induction n using Nat.strongRecOn generalizing d more with
  | ind n ih =>
    intro h
    by_cases hn : n < 10
    · rw [Nat.toDigits_of_lt_base hn] at h
      exact absurd (List.cons.inj h).2 (by simp)
    · rw [Nat.toDigits_of_base_le (by omega) (by omega)] at h
      cases htens : Nat.toDigits 10 (n / 10) with
      | nil => exact Nat.toDigits_ne_nil htens
      | cons c cs =>
        rw [htens, List.cons_append] at h
        obtain ⟨rfl, htail⟩ := List.cons.inj h
        cases cs with
        | nil =>
          -- One digit that is a zero: the number was below ten.
          have hzero := natOf_toDigits (n / 10)
          rw [htens] at hzero
          have : n / 10 = 0 := hzero.symm
          omega
        | cons c' cs => exact ih (n / 10) (by omega) c' cs htens

/-- Whether the text does not start with a digit. -/
def NoDigitAhead (rest : List Char) : Prop := ∀ c ∈ rest.head?, Text.isAsciiDigit c = false

theorem takeDigits_append {t rest : List Char} (ht : IsDigits t) (hrest : NoDigitAhead rest) :
    Numeral.takeDigits (t ++ rest) = (t, rest) := by
  have hstop : rest.takeWhile Text.isAsciiDigit = [] ∧ rest.dropWhile Text.isAsciiDigit = rest := by
    cases rest with
    | nil => exact ⟨rfl, rfl⟩
    | cons c rest =>
      have hc : Text.isAsciiDigit c = false := hrest c rfl
      simp [hc]
  rw [Numeral.takeDigits, List.takeWhile_append_of_pos ht, List.dropWhile_append_of_pos ht,
    hstop.1, hstop.2, List.append_nil]

theorem readDigits_append {t rest : List Char} (hne : t ≠ []) (ht : IsDigits t)
    (hrest : NoDigitAhead rest) : Json.readDigits (t ++ rest) = .ok (t, rest) := by
  rw [Json.readDigits, takeDigits_append ht hrest]
  cases t with
  | nil => exact absurd rfl hne
  | cons => rfl

/-! ## 2. Unsigned numerals -/

/-- Digits, perhaps digits after a point, perhaps an exponent. -/
structure UnsignedNumeral where
  whole : List Char
  fraction : Option (List Char)
  exponent : Option Int
  whole_ne : whole ≠ []
  whole_digits : IsDigits whole
  /-- A zero before the point stands alone. -/
  whole_canonical : ∀ d more, whole ≠ '0' :: d :: more
  fraction_ne : ∀ t ∈ fraction, t ≠ []
  fraction_digits : ∀ t ∈ fraction, IsDigits t

namespace UnsignedNumeral

def fractionChars : Option (List Char) → List Char
  | none => []
  | some t => '.' :: t

def exponentChars : Option Int → List Char
  | none => []
  | some e => 'e' :: (if e < 0 then '-' else '+') :: Nat.toDigits 10 e.natAbs

def chars (n : UnsignedNumeral) : List Char :=
  n.whole ++ fractionChars n.fraction ++ exponentChars n.exponent

/-- The value with a sign. -/
def value (n : UnsignedNumeral) (negative : Bool) : Json :=
  Json.numberOf negative n.whole n.fraction n.exponent

/-- What cannot go on as a number. -/
def EndsBefore (rest : List Char) : Prop :=
  ∀ c ∈ rest.head?, Text.isAsciiDigit c = false ∧ c ≠ '.' ∧ c ≠ 'e' ∧ c ≠ 'E'

theorem EndsBefore.noDigitAhead {rest : List Char} (h : EndsBefore rest) : NoDigitAhead rest :=
  fun c hc => (h c hc).1

theorem noDigitAhead_exponentChars {rest : List Char} (h : EndsBefore rest) (e : Option Int) :
    NoDigitAhead (exponentChars e ++ rest) := by
  cases e with
  | none => exact h.noDigitAhead
  | some e =>
    intro c hc
    cases hc
    decide

theorem noDigitAhead_fractionChars {rest : List Char} (h : EndsBefore rest)
    (f : Option (List Char)) (e : Option Int) :
    NoDigitAhead (fractionChars f ++ (exponentChars e ++ rest)) := by
  cases f with
  | none => exact noDigitAhead_exponentChars h e
  | some t =>
    intro c hc
    cases hc
    decide

theorem readWhole_append (n : UnsignedNumeral) {rest : List Char} (hrest : NoDigitAhead rest) :
    Json.readWhole (n.whole ++ rest) = .ok (n.whole, rest) := by
  rw [Json.readWhole, readDigits_append n.whole_ne n.whole_digits hrest]
  split
  · rename_i d more heq
    cases heq
  · rename_i heq
    cases heq
    split
    · rename_i hwhole
      exact absurd hwhole (n.whole_canonical _ _)
    · rfl

theorem readFraction_append (n : UnsignedNumeral) {rest : List Char} (hrest : EndsBefore rest) :
    Json.readFraction (fractionChars n.fraction ++ (exponentChars n.exponent ++ rest))
      = .ok (n.fraction, exponentChars n.exponent ++ rest) := by
  have hahead := noDigitAhead_exponentChars hrest n.exponent
  cases hf : n.fraction with
  | some t =>
    have hread := readDigits_append (n.fraction_ne t hf) (n.fraction_digits t hf) hahead
    simp only [fractionChars, List.cons_append, Json.readFraction, hread]
    rfl
  | none =>
    simp only [fractionChars, List.nil_append]
    cases he : n.exponent with
    | some e => rfl
    | none =>
      cases rest with
      | nil => rfl
      | cons c rest =>
        have hc : c ≠ '.' := (hrest c rfl).2.1
        simp only [exponentChars, List.nil_append]
        rw [Json.readFraction]
        intro t ht
        exact hc (List.cons.inj ht).1

theorem readExponent_append {rest : List Char} (hrest : EndsBefore rest) (e : Option Int) :
    Json.readExponent (exponentChars e ++ rest) = .ok (e, rest) := by
  cases e with
  | none =>
    cases rest with
    | nil => rfl
    | cons c rest =>
      have hc := (hrest c rfl).2.2
      simp [exponentChars, Json.readExponent, hc.1, hc.2]
  | some e =>
    have hread := readDigits_append (Nat.toDigits_ne_nil (n := e.natAbs) (b := 10))
      (isDigits_toDigits e.natAbs) hrest.noDigitAhead
    rw [exponentChars]
    by_cases he : e < 0
    · have hvalue : -(e.natAbs : Int) = e := by omega
      generalize e.natAbs = n at hread hvalue ⊢
      simp [Json.readExponent, he, hread, Except.map, natOf_toDigits, hvalue]
    · have hvalue : (e.natAbs : Int) = e := by omega
      generalize e.natAbs = n at hread hvalue ⊢
      simp [Json.readExponent, he, hread, Except.map, natOf_toDigits, hvalue]

/-- **A numeral is read for what it is**, before anything that cannot go on as a number. -/
theorem readNumber_numeral (n : UnsignedNumeral) (negative : Bool) {rest : List Char}
    (hrest : EndsBefore rest) :
    Json.readNumber negative (n.chars ++ rest) = .ok (n.value negative, rest) := by
  have hwhole := n.readWhole_append (noDigitAhead_fractionChars hrest n.fraction n.exponent)
  have hfraction := n.readFraction_append hrest
  have hexponent := readExponent_append hrest n.exponent
  rw [chars, List.append_assoc, List.append_assoc, Json.readNumber]
  simp only [hwhole, hfraction, hexponent, bind, Except.bind]
  rfl

/-- The digits of a natural number. -/
def ofNat (n : Nat) : UnsignedNumeral where
  whole := Nat.toDigits 10 n
  fraction := none
  exponent := none
  whole_ne := Nat.toDigits_ne_nil
  whole_digits := isDigits_toDigits n
  whole_canonical := toDigits_no_leading_zero n
  fraction_ne := by simp
  fraction_digits := by simp

theorem writeInt_toList (n : Int) :
    (Json.writeInt n).toList = (if n < 0 then ['-'] else []) ++ (ofNat n.natAbs).chars := by
  rw [Json.writeInt]
  split <;> simp [chars, ofNat, fractionChars, exponentChars]

/-- An integer of sixty-four bits, with or without sign, is read back. -/
theorem value_ofNat {n : Int} (hlow : -0x8000000000000000 ≤ n) (hhigh : n ≤ Numeral.largest) :
    (ofNat n.natAbs).value (decide (n < 0)) = .int n := by
  simp only [value, ofNat, Json.numberOf, Numeral.wholeOf?, natOf_toDigits]
  by_cases hn : n < 0
  · have hrange : (1 ≤ n.natAbs && n.natAbs ≤ 0x8000000000000000) = true := by
      simp only [Bool.and_eq_true, decide_eq_true_eq]
      omega
    have habs : -(n.natAbs : Int) = n := by omega
    simp only [hn, decide_true, if_true, hrange, habs]
  · have hrange : n.natAbs ≤ Numeral.largest := by omega
    have habs : (n.natAbs : Int) = n := by omega
    simp only [hn, decide_false, Bool.false_eq_true, if_false, if_pos hrange, habs]

end UnsignedNumeral

/-! ## 3. The digits of a double are not zero -/

namespace Decimal

theorem Interval.onGrid?_ne_zero {i : Interval} {tie : Tie} {k : Int} {n : Nat}
    (h : i.onGrid? tie k = some n) : n ≠ 0 := by
  simp only [onGrid?] at h
  split at h
  · cases h
  · rename_i hlow _
    simp only [Bool.and_eq_true, bne_iff_ne] at hlow
    cases h
    exact hlow.2
  · cases h
    omega
  · rename_i hlow _
    simp only [Bool.and_eq_true, bne_iff_ne] at hlow
    split at h
    · cases h
      exact hlow.2
    · cases h
      omega
    · split at h <;> cases h <;> omega

/-- The search cannot end with zero if the value reaches the finest grid that it looks at. -/
theorem Interval.search_ne_zero {i : Interval} {tie : Tie} {fuel : Nat} {k : Int}
    (h : i.floor (k - fuel) ≠ 0) : (i.search tie fuel k).digits ≠ 0 := by
  induction fuel generalizing k with
  | zero => simpa [search] using h
  | succ fuel ih =>
    rw [search]
    split
    · rename_i n hn
      exact onGrid?_ne_zero hn
    · refine ih ?_
      have hk : k - 1 - fuel = k - (fuel + 1 : Nat) := by omega
      rwa [hk]

theorem Interval.floor_ne_zero {i : Interval} {k : Int} (hden : 0 < i.denominator)
    (h : i.denominator * 10 ^ k.toNat ≤ i.value * 10 ^ (-k).toNat) : i.floor k ≠ 0 := by
  have hpos : 0 < i.denominator * 10 ^ k.toNat := Nat.mul_pos hden (Nat.pow_pos (by omega))
  exact Nat.ne_of_gt (Nat.div_pos h hpos)

theorem lt_pow_length_toDigits (n : Nat) : n < 10 ^ (Nat.toDigits 10 n).length :=
  (Nat.length_toDigits_le_iff (by omega) Nat.length_toDigits_pos).1 (Nat.le_refl _)

theorem pow_length_toDigits_le {n : Nat} (h : n ≠ 0) :
    10 ^ ((Nat.toDigits 10 n).length - 1) ≤ n := by
  by_cases hlen : (Nat.toDigits 10 n).length = 1
  · rw [hlen, Nat.sub_self, Nat.pow_zero]
    exact Nat.pos_of_ne_zero h
  · have hpos := @Nat.length_toDigits_pos 10 n
    have hiff := @Nat.length_toDigits_le_iff 10 n ((Nat.toDigits 10 n).length - 1) (by omega)
      (by omega)
    omega

/-- The value reaches the grid twenty-four places below its magnitude. -/
theorem Interval.floor_magnitude_ne_zero {i : Interval} (hval : 0 < i.value)
    (hden : 0 < i.denominator) : i.floor (i.magnitude - (24 : Nat)) ≠ 0 := by
  refine floor_ne_zero hden ?_
  have hone : (Nat.toDigits 10 (0 + 1)).length = 1 := rfl
  by_cases hbig : i.denominator ≤ i.value
  · -- At least one: the magnitude counts the digits before the point.
    have hquot : i.denominator / (i.value + 1) = 0 := Nat.div_eq_of_lt (by omega)
    have hle := pow_length_toDigits_le (Nat.succ_ne_zero (i.value / i.denominator))
    rw [magnitude, hquot, hone]
    generalize (Nat.toDigits 10 (i.value / i.denominator + 1)).length = l at hle ⊢
    have hmul : i.denominator * (i.value / i.denominator) ≤ i.value := Nat.mul_div_le _ _
    rcases Nat.lt_or_ge 24 l with hl | hl
    · have hk : ((l : Int) - (1 : Nat) + 1 - (24 : Nat)).toNat = l - 24 := by omega
      have hk' : (-((l : Int) - (1 : Nat) + 1 - (24 : Nat))).toNat = 0 := by omega
      have hpow : 10 ^ (l - 24) * 10 ≤ 10 ^ (l - 1) := by
        rw [← Nat.pow_succ]
        exact Nat.pow_le_pow_right (by omega) (by omega)
      have hpos : 0 < 10 ^ (l - 24) := Nat.pow_pos (by omega)
      rw [hk, hk', Nat.pow_zero, Nat.mul_one]
      exact Nat.le_trans (Nat.mul_le_mul_left _ (by omega)) hmul
    · have hk : ((l : Int) - (1 : Nat) + 1 - (24 : Nat)).toNat = 0 := by omega
      rw [hk, Nat.pow_zero, Nat.mul_one]
      exact Nat.le_trans hbig (Nat.le_mul_of_pos_right _ (Nat.pow_pos (by omega)))
  · -- Below one: it counts the zeros after the point.
    have hquot : i.value / i.denominator = 0 := Nat.div_eq_of_lt (by omega)
    have hlt := lt_pow_length_toDigits (i.denominator / (i.value + 1) + 1)
    rw [magnitude, hquot, hone]
    generalize (Nat.toDigits 10 (i.denominator / (i.value + 1) + 1)).length = l at hlt ⊢
    have hk : (((1 : Nat) : Int) - l + 1 - (24 : Nat)).toNat = 0 := by omega
    have hk' : (-(((1 : Nat) : Int) - l + 1 - (24 : Nat))).toNat = l + 22 := by omega
    rw [hk, hk', Nat.pow_zero, Nat.mul_one]
    have hden' : i.denominator < (i.value + 1) * (i.denominator / (i.value + 1) + 1) :=
      Nat.lt_mul_div_succ _ (by omega)
    calc i.denominator
        ≤ (i.value + 1) * (i.denominator / (i.value + 1) + 1) := Nat.le_of_lt hden'
      _ ≤ (i.value * 10 ^ 22) * 10 ^ l := Nat.mul_le_mul (by omega) (Nat.le_of_lt hlt)
      _ = i.value * 10 ^ (l + 22) := by rw [Nat.mul_assoc, ← Nat.pow_add, Nat.add_comm 22]

theorem Scaled.strip_ne_zero {fuel : Nat} {d : Scaled} (h : d.digits ≠ 0) :
    (Scaled.strip fuel d).digits ≠ 0 := by
  induction fuel generalizing d with
  | zero => exact h
  | succ fuel ih =>
    rw [strip]
    split
    · rename_i hten
      simp only [Bool.and_eq_true, bne_iff_ne, beq_iff_eq] at hten
      refine ih ?_
      show d.digits / 10 ≠ 0
      omega
    · exact h

theorem mantissa_pos {x : Binary64} (h : x.isZero = false) : 0 < x.mantissa := by
  have hne : x.magnitudeBits ≠ 0 := by simpa [Binary64.isZero] using h
  rw [Binary64.mantissa]
  split
  · omega
  · have : 0 < Binary64.hiddenBit := by decide
    omega

/-- The digits of a double that is not zero are not zero. -/
theorem shortest_ne_zero {tie : Tie} {x : Binary64} (h : x.isZero = false) :
    (shortest tie x).digits ≠ 0 := by
  have hm := mantissa_pos h
  refine Scaled.strip_ne_zero (Interval.search_ne_zero (Interval.floor_magnitude_ne_zero ?_ ?_))
  · exact Nat.mul_pos (by omega) (Nat.pow_pos (by omega))
  · exact Nat.mul_pos (by omega) (Nat.pow_pos (by omega))

/-! ## 4. Doubles as numerals -/

/-- The digits of a positive number, the first of them not zero. -/
structure LeadingDigits (digits : List Char) : Prop where
  isDigits : IsDigits digits
  head : ∃ c more, digits = c :: more ∧ c ≠ '0'

theorem leadingDigits_toDigits {n : Nat} (h : n ≠ 0) : LeadingDigits (Nat.toDigits 10 n) := by
  refine ⟨isDigits_toDigits n, ?_⟩
  cases hd : Nat.toDigits 10 n with
  | nil => exact absurd hd Nat.toDigits_ne_nil
  | cons c more =>
    refine ⟨c, more, rfl, ?_⟩
    rintro rfl
    cases more with
    | nil =>
      have hn := natOf_toDigits n
      rw [hd] at hn
      exact h hn.symm
    | cons d more => exact toDigits_no_leading_zero n d more hd

theorem isDigits_zeros (n : Nat) : IsDigits (zeros n) := by
  intro c hc
  rw [List.eq_of_mem_replicate hc]
  decide

theorem ne_zero_cons {c : Char} (h : c ≠ '0') (t : List Char) (d : Char) (more : List Char) :
    c :: t ≠ '0' :: d :: more :=
  fun heq => h (List.cons.inj heq).1

/-- The numeral of digits with the point in its place. -/
theorem exists_plain {digits : List Char} (h : LeadingDigits digits) (exponent : Int) :
    ∃ n : UnsignedNumeral, n.fraction.isSome ∧ n.chars = plain digits exponent := by
  obtain ⟨c, more, hdigits, hc⟩ := h.head
  simp only [plain]
  split
  · -- All digits stand before the point.
    refine ⟨{
      whole := digits ++ zeros exponent.toNat
      fraction := some ['0']
      exponent := none
      whole_ne := by simp [hdigits]
      whole_digits := IsDigits.append h.isDigits (isDigits_zeros _)
      whole_canonical := by rw [hdigits]; exact ne_zero_cons hc _
      fraction_ne := by simp
      fraction_digits := ?_ }, rfl, ?_⟩
    · rintro _ ⟨⟩
      exact isDigits_zero
    · simp [UnsignedNumeral.chars, UnsignedNumeral.fractionChars, UnsignedNumeral.exponentChars]
  · split
    · -- The point stands among them.
      rename_i hbelow
      generalize hk : digits.length - (-exponent).toNat = k
      have hlt : k < digits.length := by omega
      have htake : digits.take k = c :: more.take (k - 1) := by
        rw [hdigits]
        cases k with
        | zero => omega
        | succ k => rfl
      refine ⟨{
        whole := digits.take k
        fraction := some (digits.drop k)
        exponent := none
        whole_ne := by rw [htake]; simp
        whole_digits := fun d hd => h.isDigits d (List.mem_of_mem_take hd)
        whole_canonical := by rw [htake]; exact ne_zero_cons hc _
        fraction_ne := ?_
        fraction_digits := ?_ }, rfl, ?_⟩
      · rintro _ ⟨⟩
        simpa using hlt
      · rintro _ ⟨⟩ d hd
        exact h.isDigits d (List.mem_of_mem_drop hd)
      · simp [UnsignedNumeral.chars, UnsignedNumeral.fractionChars, UnsignedNumeral.exponentChars]
    · -- All digits stand behind the point.
      refine ⟨{
        whole := ['0']
        fraction := some (zeros ((-exponent).toNat - digits.length) ++ digits)
        exponent := none
        whole_ne := by simp
        whole_digits := isDigits_zero
        whole_canonical := by simp
        fraction_ne := ?_
        fraction_digits := ?_ }, rfl, ?_⟩
      · rintro _ ⟨⟩
        simp [hdigits]
      · rintro _ ⟨⟩
        exact IsDigits.append (isDigits_zeros _) h.isDigits
      · simp [UnsignedNumeral.chars, UnsignedNumeral.fractionChars, UnsignedNumeral.exponentChars]

/-- The numeral of digits with an exponent mark. -/
theorem exists_scientific {digits : List Char} (h : LeadingDigits digits) (leading : Int) :
    ∃ n : UnsignedNumeral, n.exponent.isSome
      ∧ n.chars = scientific Json.floatLayout digits leading := by
  obtain ⟨c, more, hdigits, hc⟩ := h.head
  have hdigit : Text.isAsciiDigit c = true := h.isDigits c (by simp [hdigits])
  have hmore : IsDigits more := fun d hd => h.isDigits d (by simp [hdigits, hd])
  have hsign : (if leading < 0 then ['-'] else if Json.floatLayout.plusSign then ['+'] else [])
      = [if leading < 0 then '-' else '+'] := by
    split <;> rfl
  refine ⟨{
    whole := [c]
    fraction := if more = [] then none else some more
    exponent := some leading
    whole_ne := by simp
    whole_digits := ?_
    whole_canonical := by simp
    fraction_ne := ?_
    fraction_digits := ?_ }, rfl, ?_⟩
  · intro d hd
    rw [List.mem_singleton.1 hd]
    exact hdigit
  · intro t ht
    split at ht
    · cases ht
    · cases ht
      assumption
  · intro t ht
    split at ht
    · cases ht
    · cases ht
      exact hmore
  · simp only [scientific, hsign, hdigits]
    cases more with
    | nil =>
      simp [UnsignedNumeral.chars, UnsignedNumeral.fractionChars, UnsignedNumeral.exponentChars]
    | cons d more =>
      simp [UnsignedNumeral.chars, UnsignedNumeral.fractionChars, UnsignedNumeral.exponentChars]

/-- The numeral of both zeros. -/
def zeroNumeral : UnsignedNumeral where
  whole := ['0']
  fraction := some ['0']
  exponent := none
  whole_ne := by simp
  whole_digits := isDigits_zero
  whole_canonical := by simp
  fraction_ne := by simp
  fraction_digits := by rintro _ ⟨⟩; exact isDigits_zero

/-- **A finite double is written as a numeral** with a point or an exponent. -/
theorem write_numeral {x : Binary64} (h : x.isFinite = true) :
    ∃ n : UnsignedNumeral, (n.fraction.isSome ∨ n.exponent.isSome)
      ∧ (write Json.floatLayout x).toList = (if x.isNegative then ['-'] else []) ++ n.chars := by
  have hnan : x.isNaN = false := by
    simp only [Binary64.isFinite, decide_eq_true_eq] at h
    simp only [Binary64.isNaN, decide_eq_false_iff_not]
    omega
  have hinf : x.isInfinite = false := by
    simp only [Binary64.isFinite, decide_eq_true_eq] at h
    simp only [Binary64.isInfinite, beq_eq_false_iff_ne]
    omega
  rw [write]
  simp only [hnan, hinf, Bool.false_eq_true, if_false]
  cases hzero : x.isZero with
  | true =>
    refine ⟨zeroNumeral, .inl rfl, ?_⟩
    rw [if_pos rfl, String.toList_ofList]
    rfl
  | false =>
    simp only [Bool.false_eq_true, if_false, String.toList_ofList]
    have hdigits : LeadingDigits (Nat.toDigits 10 (shortest Json.floatLayout.tie x).digits) :=
      leadingDigits_toDigits (shortest_ne_zero hzero)
    generalize Nat.toDigits 10 (shortest Json.floatLayout.tie x).digits = digits at hdigits ⊢
    generalize (shortest Json.floatLayout.tie x).exponent = e
    obtain ⟨n, hn, hplain⟩ := exists_plain hdigits e
    obtain ⟨m, hm, hscientific⟩ := exists_scientific hdigits (e + digits.length - 1)
    rw [← hplain, ← hscientific]
    by_cases hrange : (Json.floatLayout.leastPlain ≤ e + digits.length - 1
        && e + digits.length - 1 ≤ Json.floatLayout.greatestPlain) = true
    · exact ⟨n, .inl hn, by rw [if_pos hrange]⟩
    · exact ⟨m, .inr hm, by rw [if_neg hrange]⟩

end Decimal

end ApiSurface
