import ApiSurface.Json.Parser
import Mathlib.Algebra.Group.Nat.Defs
/-!
# Numbers in data

A number that is read from data can be held: it is an integer of sixty-four bits, or a double that
is finite.  Products by a power of ten are checked for overflow as they are made; quotients are
not, so for them it takes bounds.  A significand of sixty-four bits is a double below `2 ^ 68`, a
power of ten is at least one, and a quotient that is divided again has become smaller than one.

`Json.Held` says it of all numbers in a value, and `held_of_parse` says that every value read from
a text is one.
-/

namespace ApiSurface

/-! ## 1. Rounding -/

namespace Binary64

theorem magnitudeBits_lt (x : Binary64) : x.magnitudeBits < signBit :=
  Nat.mod_lt _ (by decide)

theorem magnitudeBits_ofParts {negative : Bool} {m : Nat} (h : m < signBit) :
    (ofParts negative m).magnitudeBits = m := by
  have hsign : signBit = 2 ^ 63 := rfl
  rw [hsign] at h
  rw [magnitudeBits, ofParts, UInt64.toNat_ofNat', hsign]
  cases negative with
  | false =>
    rw [if_neg (by decide)]
    omega
  | true =>
    rw [if_pos rfl]
    omega

theorem isFinite_neg {x : Binary64} (h : x.isFinite = true) : x.neg.isFinite = true := by
  rwa [isFinite, neg, magnitudeBits_ofParts x.magnitudeBits_lt]

theorem roundDiv_le {num den k : Nat} (h : num < den * 2 ^ k) : roundDiv num den ≤ 2 ^ k := by
  have hquotient : num / den < 2 ^ k := Nat.div_lt_of_lt_mul h
  simp only [roundDiv]
  split
  · omega
  · split
    · omega
    · omega

/-- The rounded quotient has no more than two bits past those of a double. -/
theorem scaledDiv_le {num den : Nat} {e : Int} (hden : den ≠ 0)
    (he : (num.log2 : Int) - den.log2 - 53 ≤ e) : scaledDiv num den e ≤ 2 ^ 54 := by
  have hnum : num < 2 ^ (num.log2 + 1) := Nat.lt_log2_self
  have hlow : 2 ^ den.log2 ≤ den := Nat.log2_self_le hden
  rw [scaledDiv]
  split
  · refine roundDiv_le (Nat.lt_of_lt_of_le hnum ?_)
    calc
      2 ^ (num.log2 + 1) ≤ 2 ^ (den.log2 + e.toNat + 54) :=
        Nat.pow_le_pow_right (by decide) (by omega)
      _ = 2 ^ den.log2 * 2 ^ e.toNat * 2 ^ 54 := by rw [Nat.pow_add, Nat.pow_add]
      _ ≤ den * 2 ^ e.toNat * 2 ^ 54 := Nat.mul_le_mul_right _ (Nat.mul_le_mul_right _ hlow)
  · refine roundDiv_le ?_
    calc
      num * 2 ^ (-e).toNat < 2 ^ (num.log2 + 1) * 2 ^ (-e).toNat :=
        Nat.mul_lt_mul_of_pos_right hnum (Nat.pow_pos (by decide))
      _ = 2 ^ (num.log2 + 1 + (-e).toNat) := (Nat.pow_add ..).symm
      _ ≤ 2 ^ (den.log2 + 54) := Nat.pow_le_pow_right (by decide) (by omega)
      _ = 2 ^ den.log2 * 2 ^ 54 := Nat.pow_add ..
      _ ≤ den * 2 ^ 54 := Nat.mul_le_mul_right _ hlow

theorem le_lastPlace (num den : Nat) : (num.log2 : Int) - den.log2 - 53 ≤ lastPlace num den := by
  simp only [lastPlace]
  split <;> split <;> omega

theorem lastPlace_le {num den k : Nat} (h : num.log2 ≤ den.log2 + k) :
    lastPlace num den + 1074 ≤ (k + 1022 : Nat) := by
  simp only [lastPlace]
  split <;> split <;> omega

theorem log2_le {num den k : Nat} (hnum : num ≠ 0) (h : num < den * 2 ^ k) :
    num.log2 ≤ den.log2 + k := by
  have hden : den < 2 ^ (den.log2 + 1) := Nat.lt_log2_self
  have hlt : num < 2 ^ (den.log2 + 1 + k) :=
    calc
      num < den * 2 ^ k := h
      _ ≤ 2 ^ (den.log2 + 1) * 2 ^ k := Nat.mul_le_mul_right _ (Nat.le_of_lt hden)
      _ = 2 ^ (den.log2 + 1 + k) := (Nat.pow_add ..).symm
  have := (Nat.log2_lt hnum).2 hlt
  omega

/-- A quotient below `2 ^ k` is a double not far above it. -/
theorem magnitudeBits_ofRatio_le (negative : Bool) {num den k : Nat} (h : num < den * 2 ^ k) :
    (ofRatio negative num den).magnitudeBits ≤ (k + 1026) * hiddenBit := by
  have hden : den ≠ 0 := by
    rintro rfl
    omega
  rw [ofRatio]
  split
  · rw [magnitudeBits_ofParts (by decide)]
    exact Nat.zero_le _
  · rename_i hnum
    have hplace : (lastPlace num den + 1074).toNat ≤ k + 1022 := by
      have := lastPlace_le (log2_le hnum h)
      omega
    have hdigits : scaledDiv num den (lastPlace num den) ≤ 4 * hiddenBit :=
      scaledDiv_le hden (le_lastPlace num den)
    have hbits : (lastPlace num den + 1074).toNat * hiddenBit
        + scaledDiv num den (lastPlace num den) ≤ (k + 1026) * hiddenBit :=
      calc
        _ ≤ (k + 1022) * hiddenBit + 4 * hiddenBit :=
          Nat.add_le_add (Nat.mul_le_mul_right _ hplace) hdigits
        _ = (k + 1026) * hiddenBit := by rw [← Nat.add_mul]
    have hsign : infinityBits < signBit := by decide
    simp only
    split
    · rw [magnitudeBits_ofParts (by omega)]
      exact hbits
    · rw [magnitudeBits_ofParts hsign]
      omega

theorem isFinite_ofRatio {negative : Bool} {num den k : Nat} (h : num < den * 2 ^ k)
    (hk : k ≤ 1020) : (ofRatio negative num den).isFinite = true := by
  have hbits := magnitudeBits_ofRatio_le negative h
  have hk' : (k + 1026) * hiddenBit ≤ 2046 * hiddenBit := Nat.mul_le_mul_right _ (by omega)
  have hinfinity : 2046 * hiddenBit < infinityBits := by decide
  rw [isFinite, decide_eq_true_eq]
  omega

/-- Rounding gives an infinity but no not-a-number. -/
theorem isFinite_of_not_infinite {negative : Bool} {num den : Nat}
    (h : (ofRatio negative num den).isInfinite = false) :
    (ofRatio negative num den).isFinite = true := by
  have hsign : infinityBits < signBit := by decide
  have hle : (ofRatio negative num den).magnitudeBits ≤ infinityBits := by
    rw [ofRatio]
    split
    · rw [magnitudeBits_ofParts (by decide)]
      exact Nat.zero_le _
    · simp only
      split
      · rw [magnitudeBits_ofParts (by omega)]
        omega
      · exact Nat.le_of_eq (magnitudeBits_ofParts hsign)
  have hne : (ofRatio negative num den).magnitudeBits ≠ infinityBits := by
    simpa [isInfinite] using h
  rw [isFinite, decide_eq_true_eq]
  omega

/-! ## 2. Quotients of moderate doubles -/

/-- Doubles that are not far above the integers of sixty-four bits. -/
def IsModerate (x : Binary64) : Prop := x.magnitudeBits ≤ 1090 * hiddenBit

theorem isModerate_ofNat {n : Nat} (h : n < 2 ^ 64) : IsModerate (ofNat n) :=
  magnitudeBits_ofRatio_le false (k := 64) (by omega)

namespace IsModerate

variable {x y : Binary64}

theorem isFinite (h : IsModerate x) : x.isFinite = true := by
  have hinfinity : 1090 * hiddenBit < infinityBits := by decide
  rw [Binary64.isFinite, decide_eq_true_eq]
  exact Nat.lt_of_le_of_lt h hinfinity

theorem numerator_lt (h : IsModerate x) : x.numerator < 2 ^ 68 := by
  have hhidden : hiddenBit = 2 ^ 52 := by decide
  have hmantissa : x.mantissa < 2 ^ 53 := by
    rw [mantissa]
    split
    · omega
    · have : x.magnitudeBits % hiddenBit < hiddenBit := Nat.mod_lt _ (by decide)
      omega
  have hexponent : x.exponent.toNat ≤ 15 := by
    have hquotient : x.magnitudeBits / hiddenBit ≤ 1090 :=
      Nat.div_le_of_le_mul (by rw [Nat.mul_comm]; exact h)
    rw [exponent]
    split
    · decide
    · omega
  calc
    x.mantissa * 2 ^ x.exponent.toNat < 2 ^ 53 * 2 ^ x.exponent.toNat :=
      Nat.mul_lt_mul_of_pos_right hmantissa (Nat.pow_pos (by decide))
    _ ≤ 2 ^ 53 * 2 ^ 15 := Nat.mul_le_mul_left _ (Nat.pow_le_pow_right (by decide) hexponent)
    _ = 2 ^ 68 := by decide

/-- The numerator of a quotient, against its denominator. -/
theorem div_lt {k : Nat} (h : x.numerator * y.denominator < y.numerator * 2 ^ k) :
    x.numerator * y.denominator < x.denominator * y.numerator * 2 ^ k := by
  have hpos : 0 < x.denominator := Nat.pow_pos (by decide)
  calc
    x.numerator * y.denominator < y.numerator * 2 ^ k := h
    _ ≤ x.denominator * (y.numerator * 2 ^ k) := Nat.le_mul_of_pos_left _ hpos
    _ = x.denominator * y.numerator * 2 ^ k := (Nat.mul_assoc ..).symm

theorem isFinite_div (h : IsModerate x) (hpos : 0 < y.numerator)
    (hy : y.denominator ≤ y.numerator) : (x.div y).isFinite = true := by
  refine isFinite_ofRatio (k := 68) (div_lt ?_) (by decide)
  calc
    x.numerator * y.denominator ≤ x.numerator * y.numerator := Nat.mul_le_mul_left _ hy
    _ < 2 ^ 68 * y.numerator := Nat.mul_lt_mul_of_pos_right h.numerator_lt hpos
    _ = y.numerator * 2 ^ 68 := Nat.mul_comm ..

theorem div (h : IsModerate x) (hpos : 0 < y.denominator)
    (hy : 2 ^ 68 * y.denominator ≤ y.numerator) : IsModerate (x.div y) := by
  have hlt : x.numerator * y.denominator < y.numerator * 2 ^ 0 :=
    calc
      x.numerator * y.denominator < 2 ^ 68 * y.denominator :=
        Nat.mul_lt_mul_of_pos_right h.numerator_lt hpos
      _ ≤ y.numerator * 2 ^ 0 := by rwa [Nat.pow_zero, Nat.mul_one]
  have hbits := magnitudeBits_ofRatio_le (x.isNegative != y.isNegative) (div_lt hlt)
  exact Nat.le_trans hbits (Nat.mul_le_mul_right _ (by decide))

end IsModerate

theorem powTen_ge_one {n : Nat} (h : n < 309) :
    0 < (powTen n).numerator ∧ (powTen n).denominator ≤ (powTen n).numerator := by
  revert n
  decide +kernel

end Binary64

/-! ## 3. Numerals -/

namespace Numeral

open Binary64

theorem collect_le {s : Nat} (h : s ≤ largest) (digits : List Char) :
    (collect s digits).1 ≤ largest := by
  induction digits generalizing s with
  | nil => exact h
  | cons c digits ih =>
    simp only [collect]
    split
    · rename_i hnext
      exact ih hnext
    · exact h

/-- What is scaled stays finite: a product is checked, and a quotient is divided by one or more. -/
theorem isFinite_of_scale? {x y : Binary64} {e : Int} (hx : x.IsModerate)
    (h : scale? x e = some y) : y.isFinite = true := by
  fun_induction scale? x e with
  | case1 => cases h
  | case2 x e hsmall he z hz =>
    obtain rfl := Option.some.inj h
    have hfinite : z.isInfinite = false := by simpa using hz
    exact isFinite_of_not_infinite hfinite
  | case3 x e hsmall he =>
    cases h
    obtain ⟨hpos, hge⟩ := powTen_ge_one (n := (-e).toNat) (by omega)
    exact hx.isFinite_div hpos hge
  | case4 x e hlarge hzero =>
    cases h
    exact hx.isFinite
  | case5 => cases h
  | case6 x e hlarge hzero he ih => exact ih (hx.div (by decide +kernel) (by decide +kernel)) h

theorem isFinite_of_ofData? {negative : Bool} {whole fraction : List Char} {e : Int} {x : Binary64}
    (h : ofData? negative whole fraction e = some x) : x.isFinite = true := by
  have hlargest : largest < 2 ^ 64 := by decide
  have hwhole : (collect 0 whole).1 ≤ largest := collect_le (by decide) whole
  have hall := collect_le hwhole fraction
  simp only [ofData?, Option.map_eq_some_iff] at h
  obtain ⟨y, hy, rfl⟩ := h
  have hfinite := isFinite_of_scale? (isModerate_ofNat (by omega)) hy
  cases negative with
  | false => exact hfinite
  | true => exact isFinite_neg hfinite

theorem isFinite_ofInt {n : Int} (hlow : -0x8000000000000000 ≤ n) (hhigh : n ≤ largest) :
    (Binary64.ofInt n).isFinite = true := by
  have hlargest : largest < 2 ^ 64 := by decide
  exact isFinite_ofRatio (k := 64) (by omega) (by decide)

theorem bounds_of_wholeOf? {negative : Bool} {whole : List Char} {n : Int}
    (h : wholeOf? negative whole = some (.inl n)) :
    -0x8000000000000000 ≤ n ∧ n ≤ largest := by
  simp only [wholeOf?] at h
  split at h
  · split at h
    · rename_i hn
      obtain rfl := Sum.inl.inj (Option.some.inj h)
      simp only [Bool.and_eq_true, decide_eq_true_eq] at hn
      omega
    · simp at h
  · split at h
    · rename_i hn
      obtain rfl := Sum.inl.inj (Option.some.inj h)
      omega
    · simp at h

theorem isFinite_of_wholeOf? {negative : Bool} {whole : List Char} {x : Binary64}
    (h : wholeOf? negative whole = some (.inr x)) : x.isFinite = true := by
  have hdata : ∀ {negative},
      (ofData? negative whole [] 0).map Sum.inr = some (Sum.inr (α := Int) x) →
        x.isFinite = true := by
    intro negative hx
    obtain ⟨y, hy, hyx⟩ := Option.map_eq_some_iff.1 hx
    obtain rfl := Sum.inr.inj hyx
    exact isFinite_of_ofData? hy
  simp only [wholeOf?] at h
  split at h
  · split at h
    · simp at h
    · exact hdata h
  · split at h
    · simp at h
    · exact hdata h

end Numeral

/-! ## 4. Values -/

namespace Json

/-- Whether all integers of a value have sixty-four bits and all its doubles are finite. -/
inductive Held : Json → Prop
  | null : Held .null
  | bool (b : Bool) : Held (.bool b)
  | int {n : Int} (hlow : -0x8000000000000000 ≤ n) (hhigh : n ≤ Numeral.largest) : Held (.int n)
  | float {x : Binary64} (h : x.isFinite = true) : Held (.float x)
  | string (s : String) : Held (.string s)
  | array {items : List Json} (h : ∀ v ∈ items, Held v) : Held (.array items)
  | object {members : Members} (h : ∀ m ∈ members, Held m.2) : Held (.object members)
  | unreadable : Held .unreadable

theorem held_numberOf (negative : Bool) (whole : List Char) (fraction : Option (List Char))
    (exponent : Option Int) : (numberOf negative whole fraction exponent).Held := by
  unfold numberOf
  split
  · split
    · rename_i n hn
      obtain ⟨hlow, hhigh⟩ := Numeral.bounds_of_wholeOf? hn
      exact .int hlow hhigh
    · rename_i x hx
      exact .float (Numeral.isFinite_of_wholeOf? hx)
    · exact .unreadable
  · split
    · rename_i x hx
      exact .float (Numeral.isFinite_of_ofData? hx)
    · exact .unreadable

theorem held_of_readNumber {negative : Bool} {t u : List Char} {v : Json}
    (h : readNumber negative t = .ok (v, u)) : v.Held := by
  simp only [readNumber, bind, Except.bind] at h
  split at h
  · cases h
  · split at h
    · cases h
    · split at h
      · cases h
      · cases h
        exact held_numberOf ..

theorem held_of_readWord {v w : Json} (hv : v.Held) {word t u : List Char}
    (h : readWord v word t = .ok (w, u)) : w.Held := by
  fun_induction readWord v word t with
  | case1 =>
    cases h
    exact hv
  | case2 => cases h
  | case3 _ _ _ ih => exact ih h
  | case4 => cases h

theorem held_atDepth {v : Json} (depth : Nat) (h : v.Held) : (atDepth depth v).Held := by
  rw [atDepth]
  split
  · exact h
  · exact .unreadable

mutual
theorem held_of_readValue : (fuel depth : Nat) → (t u : List Char) → (v : Json) →
    readValue fuel depth t = .ok (v, u) → v.Held
  | 0, _, _, _, _, h => by
    rw [readValue] at h
    cases h
  | fuel + 1, depth, t, u, v, h => by
    rw [readValue] at h
    split at h
    · cases h
    · exact held_of_readWord .null h
    · exact held_of_readWord (.bool true) h
    · exact held_of_readWord (.bool false) h
    · split at h
      · cases h
      · cases h
        exact .string _
      · cases h
        exact .unreadable
    · split at h
      · cases h
        exact held_atDepth _ (.array (by simp))
      · exact held_of_readItems fuel (depth + 1) [] _ u v (by simp) h
    · split at h
      · cases h
        exact held_atDepth _ (.object (by simp))
      · exact held_of_readMembers fuel (depth + 1) (some []) _ u v (by simp) h
    · exact held_of_readNumber h
    · exact held_of_readNumber h

theorem held_of_readItems : (fuel depth : Nat) → (items : List Json) → (t u : List Char) →
    (v : Json) → (∀ w ∈ items, w.Held) → readItems fuel depth items t = .ok (v, u) → v.Held
  | 0, _, _, _, _, _, _, h => by
    rw [readItems] at h
    cases h
  | fuel + 1, depth, items, t, u, v, hitems, h => by
    rw [readItems] at h
    split at h
    · cases h
    · rename_i w t' hw
      have hall : ∀ x ∈ w :: items, x.Held :=
        List.forall_mem_cons.2 ⟨held_of_readValue fuel depth t t' w hw, hitems⟩
      split at h
      · exact held_of_readItems fuel depth (w :: items) _ u v hall h
      · cases h
        exact held_atDepth _ (.array fun x hx => hall x (List.mem_reverse.1 hx))
      · cases h

theorem held_of_readMembers : (fuel depth : Nat) → (members : Option Members) →
    (t u : List Char) → (v : Json) → (∀ ms ∈ members, ∀ m ∈ ms, m.2.Held) →
    readMembers fuel depth members t = .ok (v, u) → v.Held
  | 0, _, _, _, _, _, _, h => by
    rw [readMembers] at h
    cases h
  | fuel + 1, depth, members, t, u, v, hmembers, h => by
    rw [readMembers] at h
    split at h
    · split at h
      · cases h
      · split at h
        · split at h
          · cases h
          · rename_i w t' hw
            have hmore : ∀ (key : String) (ms : Members), (∀ m ∈ ms, m.2.Held) →
                ∀ m ∈ (key, w) :: ms, m.2.Held := fun key ms hms =>
              List.forall_mem_cons.2 ⟨held_of_readValue fuel depth _ t' w hw, hms⟩
            simp only at h
            split at h
            · refine held_of_readMembers fuel depth _ _ u v ?_ h
              split
              · rintro ms ⟨⟩
                exact hmore _ _ (hmembers _ rfl)
              · rintro ms ⟨⟩
            · cases h
              split
              · rename_i ms hms
                refine held_atDepth _ (.object fun m hm => ?_)
                rw [List.mem_reverse] at hm
                split at hms
                · cases hms
                  exact hmore _ _ (hmembers _ rfl) m hm
                · cases hms
              · exact .unreadable
            · cases h
        · cases h
    · cases h
end

/-- Every value that is read from a text can be held. -/
theorem held_of_parse {text : String} {v : Json} (h : parse text = .ok v) : v.Held := by
  simp only [parse] at h
  split at h
  · cases h
  · rename_i w rest hw
    split at h
    · cases h
      exact held_of_readValue _ _ _ _ _ hw
    · cases h

end Json

end ApiSurface
