import ApiSurface.Proofs.OutermostCuts
import Mathlib.Data.Nat.ModEq
/-!
# The depth of brackets and its counter

What is open at a place in a text can be said without a reader that goes through the text.  Quotes
are closed by the next ones of their kind, and a text ends outside quotes if it consists of plain
characters and of closed quotations.  Of the plain characters the brackets count, and nothing is
open where as many close as open; their kinds and their order do not matter, so that the depth may
also have been below zero in between.

A reader counts with 32 bits.  Its counter is the depth up to multiples of `2 ^ 32`, so a text is
closed for it if its brackets are balanced up to such a multiple (`countsToZero_iff_closed`).  In a
text of less than `2 ^ 32` characters the counter is at zero where nothing is open and nowhere else
(`nothingOpen_iff_closed`).

A counter may also stop the reader where it would leave its range.  Up to `2 ^ 31` characters that
does not happen (`Overflow.split_eq`), and `2 ^ 31` brackets are enough for it
(`Overflow.split_brackets`).
-/

namespace ApiSurface.TypeText

variable {c sep : Char} {t shown : List Char} {depth : Int32}

/-! ## 1. Outside quotes -/

/-- That a text ends outside quotes, with the characters of it that stand outside. -/
inductive OutsideQuotes : List Char → List Char → Prop
  | nil : OutsideQuotes [] []
  | plain {c : Char} {t shown : List Char} (hc : isQuote c = false) (ht : OutsideQuotes t shown) :
    OutsideQuotes (c :: t) (c :: shown)
  | quoted {q : Char} {inner t shown : List Char} (hq : isQuote q = true) (hinner : q ∉ inner)
    (ht : OutsideQuotes t shown) : OutsideQuotes (q :: (inner ++ q :: t)) shown

theorem OutsideQuotes.length_le (h : OutsideQuotes t shown) : shown.length ≤ t.length := by
  induction h with
  | nil => exact Nat.le_refl _
  | plain _ _ ih => exact Nat.succ_le_succ ih
  | quoted _ _ _ ih =>
    simp only [List.length_cons, List.length_append]
    omega

theorem OutsideQuotes.after_eq (h : OutsideQuotes t shown) (depth : Int32) :
    Place.after ⟨depth, none⟩ t = ⟨depth + Int32.ofInt (rise shown), none⟩ := by
  induction h generalizing depth with
  | nil => simp [Place.after, rise]
  | plain hc _ ih => rw [Place.after_cons, Place.step_plain hc, ih, rise, deepen_add]
  | quoted hq hinner _ ih => rw [Place.after_quotation hq hinner, ih]

theorem outsideQuotes_self (h : Unquoted t) : OutsideQuotes t t := by
  induction t with
  | nil => exact .nil
  | cons c t ih =>
    rw [Unquoted, List.forall_mem_cons] at h
    exact .plain h.1 (ih h.2)

theorem OutsideQuotes.eq_of_unquoted (h : OutsideQuotes t shown) (hunquoted : Unquoted t) :
    shown = t := by
  induction h with
  | nil => rfl
  | plain hc _ ih =>
    rw [Unquoted, List.forall_mem_cons] at hunquoted
    rw [ih hunquoted.2]
  | quoted hq _ _ _ =>
    rw [hunquoted _ List.mem_cons_self] at hq
    cases hq

/-- Where a reader is outside quotes, those before are closed. -/
theorem exists_outsideQuotes (h : (Place.after ⟨depth, none⟩ t).quote = none) :
    ∃ shown, OutsideQuotes t shown := by
  -- a quotation is passed as a whole, so that the induction is on the length of what is left
  induction hn : t.length using Nat.strongRecOn generalizing depth t with
  | ind n ih =>
    cases t with
    | nil => exact ⟨[], .nil⟩
    | cons c t =>
      cases hc : isQuote c with
      | false =>
        rw [Place.after_cons, Place.step_plain hc] at h
        obtain ⟨shown, hshown⟩ := ih t.length (by simp [← hn]) h rfl
        exact ⟨c :: shown, .plain hc hshown⟩
      | true =>
        have hmem : c ∈ t := by
          by_contra hnot
          rw [Place.after_cons, Place.step_quote hc, Place.after_of_not_mem hnot] at h
          cases h
        obtain ⟨inner, rest, rfl, hinner⟩ := List.eq_append_cons_of_mem hmem
        rw [Place.after_quotation hc hinner] at h
        have hlength : rest.length < n := by
          simp only [← hn, List.length_cons, List.length_append]
          omega
        obtain ⟨shown, hshown⟩ := ih rest.length hlength h rfl
        exact ⟨shown, .quoted hc hinner hshown⟩

/-! ## 2. Nothing open -/

def isOpening (c : Char) : Bool := c == '[' || c == '(' || c == '\x7b'

def isClosing (c : Char) : Bool := c == ']' || c == ')' || c == '\x7d'

/-- That at the end of a text quotes are closed, and that outside them as many brackets close as
open. -/
def NothingOpen (t : List Char) : Prop :=
  ∃ shown, OutsideQuotes t shown ∧ shown.countP isOpening = shown.countP isClosing

/-- That at the end of a text quotes are closed, and that outside them as many brackets close as
open, up to a multiple of `2 ^ 32`. -/
def CountsToZero (t : List Char) : Prop :=
  ∃ shown, OutsideQuotes t shown
    ∧ shown.countP isOpening ≡ shown.countP isClosing [MOD 2 ^ 32]

/-- That a character stands in a text only where something is open. -/
def OnlyInside (c : Char) (t : List Char) : Prop :=
  ∀ before after, t = before ++ c :: after → ¬ NothingOpen before

theorem NothingOpen.countsToZero (h : NothingOpen t) : CountsToZero t := by
  obtain ⟨shown, hshown, hcount⟩ := h
  exact ⟨shown, hshown, congrArg (· % 2 ^ 32) hcount⟩

/-- In a short text the brackets are too few for a multiple. -/
theorem CountsToZero.nothingOpen (h : CountsToZero t) (hshort : t.length < 2 ^ 32) :
    NothingOpen t := by
  obtain ⟨shown, hshown, hcount⟩ := h
  have hbound : ∀ p : Char → Bool, shown.countP p < 2 ^ 32 := fun p =>
    Nat.lt_of_le_of_lt (Nat.le_trans List.countP_le_length hshown.length_le) hshort
  exact ⟨shown, hshown, hcount.eq_of_lt_of_lt (hbound _) (hbound _)⟩

/-! ## 3. The counter -/

theorem isClosing_of_isOpening (h : isOpening c = true) : isClosing c = false := by
  simp only [isOpening, Bool.or_eq_true, beq_iff_eq] at h
  rcases h with (rfl | rfl) | rfl <;> decide

theorem rise_eq_countP (t : List Char) :
    rise t = (t.countP isOpening : Int) - (t.countP isClosing : Int) := by
  induction t with
  | nil => rfl
  | cons c t ih =>
    rw [rise, ih, List.countP_cons, List.countP_cons]
    have hnesting : nesting c = if isOpening c then 1 else if isClosing c then -1 else 0 := rfl
    rw [hnesting]
    cases hopening : isOpening c with
    | true =>
      rw [isClosing_of_isOpening hopening]
      simp only [if_true, Bool.false_eq_true, if_false]
      omega
    | false =>
      cases isClosing c <;> simp only [if_true, Bool.false_eq_true, if_false] <;> omega

theorem ofInt_eq_zero_iff {n : Int} : Int32.ofInt n = 0 ↔ ((2 ^ 32 : Nat) : Int) ∣ n := by
  rw [← Int32.toInt_inj, Int32.toInt_ofInt, Int32.toInt_zero]
  exact Int.dvd_iff_bmod_eq_zero.symm

theorem ofInt_rise_eq_zero_iff (t : List Char) :
    Int32.ofInt (rise t) = 0 ↔ t.countP isOpening ≡ t.countP isClosing [MOD 2 ^ 32] := by
  rw [ofInt_eq_zero_iff, rise_eq_countP, ← Nat.modEq_iff_dvd]
  exact ⟨Nat.ModEq.symm, Nat.ModEq.symm⟩

theorem countsToZero_iff_closed : CountsToZero t ↔ Closed t := by
  have hzero : ∀ shown : List Char, (⟨0 + Int32.ofInt (rise shown), none⟩ : Place) = {}
      ↔ shown.countP isOpening ≡ shown.countP isClosing [MOD 2 ^ 32] := by
    intro shown
    rw [Place.mk.injEq, and_iff_left rfl, Int32.zero_add, ofInt_rise_eq_zero_iff]
  constructor
  · rintro ⟨shown, hshown, hcount⟩
    exact (hshown.after_eq 0).trans ((hzero shown).2 hcount)
  · intro hclosed
    have hquote : (Place.after ⟨0, none⟩ t).quote = none := congrArg Place.quote hclosed
    obtain ⟨shown, hshown⟩ := exists_outsideQuotes hquote
    exact ⟨shown, hshown, (hzero shown).1 ((hshown.after_eq 0).symm.trans hclosed)⟩

theorem NothingOpen.closed (h : NothingOpen t) : Closed t :=
  countsToZero_iff_closed.1 h.countsToZero

theorem nothingOpen_iff_closed (hshort : t.length < 2 ^ 32) : NothingOpen t ↔ Closed t :=
  ⟨NothingOpen.closed, fun h => (countsToZero_iff_closed.2 h).nothingOpen hshort⟩

theorem onlyInside_iff_shelters (hshort : t.length < 2 ^ 32) : OnlyInside c t ↔ Shelters t c := by
  have hplace : ∀ before after, t = before ++ c :: after →
      (¬ NothingOpen before ↔ (Place.after {} before).isOutermost = false) := by
    rintro before after rfl
    have hlength : before.length < 2 ^ 32 := by
      rw [List.length_append] at hshort
      omega
    rw [nothingOpen_iff_closed hlength, Bool.eq_false_iff, Ne, Place.isOutermost_iff, Closed]
  exact ⟨fun h before after heq => (hplace before after heq).1 (h before after heq),
    fun h before after heq => (hplace before after heq).2 (h before after heq)⟩

/-- The counter is the depth as long as this is in its range. -/
theorem toInt_deepen (hlow : -2 ^ 31 ≤ depth.toInt + nesting c)
    (hhigh : depth.toInt + nesting c < 2 ^ 31) :
    (deepen depth c).toInt = depth.toInt + nesting c := by
  have heq : deepen depth c = Int32.ofInt (depth.toInt + nesting c) := by
    rw [Int32.ofInt_add, Int32.ofInt_toInt, deepen]
  rw [heq, Int32.toInt_ofInt_of_le hlow hhigh]

theorem natAbs_nesting_le (c : Char) : (nesting c).natAbs ≤ 1 := by
  rw [nesting]
  split
  · decide
  split <;> decide

/-! ## 4. Counters that stop -/

/-- What becomes of a counter that would leave its range. -/
inductive Overflow
  | wraps
  | stops
  deriving DecidableEq

namespace Overflow

variable {o : Overflow} {p : Place} {n : Nat}

/-- The counter behind a character, if it goes on. -/
def deepen (o : Overflow) (depth : Int32) (c : Char) : Option Int32 :=
  match o with
  | .wraps => some (TypeText.deepen depth c)
  | .stops =>
    if -2 ^ 31 ≤ depth.toInt + nesting c ∧ depth.toInt + nesting c < 2 ^ 31 then
      some (TypeText.deepen depth c)
    else none

def step (o : Overflow) (p : Place) (c : Char) : Option Place :=
  if p.quote.isSome || isQuote c then some (p.step c)
  else (o.deepen p.depth c).map fun depth => { p with depth }

def splitFrom (o : Overflow) (sep : Char) (p : Place) : List Char → Option (List (List Char))
  | [] => some [[]]
  | c :: t => do
    let next ← o.step p c
    let pieces ← o.splitFrom sep next t
    some (if c = sep ∧ p.isOutermost = true then [] :: pieces else consHead c pieces)

/-- The pieces of a text, if the counter goes on to its end. -/
def split (o : Overflow) (sep : Char) (t : List Char) : Option (List (List Char)) :=
  o.splitFrom sep {} t

/-- That a counter goes on for so many more characters, whatever they are. -/
def Allows (o : Overflow) (depth : Int32) (n : Nat) : Prop :=
  o = .wraps ∨ depth.toInt.natAbs + n < 2 ^ 31

/-- That a counter goes on to the end of a text: it wraps around, or the text is short. -/
def Takes (o : Overflow) (t : List Char) : Prop := o = .wraps ∨ t.length < 2 ^ 31

theorem Takes.mono {s : List Char} (h : o.Takes t) (hle : s.length ≤ t.length) : o.Takes s :=
  h.imp_right (Nat.lt_of_le_of_lt hle)

theorem Allows.deepen (h : o.Allows depth (n + 1)) (c : Char) :
    o.deepen depth c = some (TypeText.deepen depth c)
      ∧ o.Allows (TypeText.deepen depth c) n := by
  obtain rfl | hbound := h
  · exact ⟨rfl, .inl rfl⟩
  have hc := natAbs_nesting_le c
  have hlow : -2 ^ 31 ≤ depth.toInt + nesting c := by omega
  have hhigh : depth.toInt + nesting c < 2 ^ 31 := by omega
  have hdeepen : o.deepen depth c = some (TypeText.deepen depth c) := by
    cases o with
    | wraps => rfl
    | stops => exact if_pos ⟨hlow, hhigh⟩
  refine ⟨hdeepen, .inr ?_⟩
  rw [toInt_deepen hlow hhigh]
  omega

theorem Allows.step (h : o.Allows p.depth (n + 1)) (c : Char) :
    o.step p c = some (p.step c) ∧ o.Allows (p.step c).depth n := by
  have hless : o.Allows p.depth n := h.imp_right Nat.lt_of_succ_lt
  obtain ⟨depth, quote⟩ := p
  cases quote with
  | some q =>
    refine ⟨rfl, ?_⟩
    simp only [Place.step]
    split <;> exact hless
  | none =>
    cases hc : isQuote c with
    | true =>
      rw [Overflow.step, Place.step_quote hc, hc]
      exact ⟨rfl, hless⟩
    | false =>
      obtain ⟨hdeepen, hallows⟩ := h.deepen c
      rw [Overflow.step, Place.step_plain hc, hc, hdeepen]
      exact ⟨rfl, hallows⟩

/-- As many brackets as the counter has room for stop it. -/
theorem splitFrom_brackets (h : 2 ^ 31 ≤ depth.toInt + n) (sep : Char) :
    stops.splitFrom sep ⟨depth, none⟩ (List.replicate n '[') = none := by
  induction n generalizing depth with
  | zero =>
    have hrange := depth.toInt_lt
    omega
  | succ n ih =>
    have hstep : stops.step ⟨depth, none⟩ '[' = (stops.deepen depth '[').map fun depth =>
      ⟨depth, none⟩ := rfl
    rw [List.replicate_succ, splitFrom, hstep]
    by_cases hroom : depth.toInt + 1 < 2 ^ 31
    · have hlow : -2 ^ 31 ≤ depth.toInt + nesting '[' :=
        Int.le_trans depth.le_toInt (Int.le_add_of_nonneg_right (by decide))
      have hnext : (TypeText.deepen depth '[').toInt = depth.toInt + 1 :=
        toInt_deepen hlow hroom
      have hmore : 2 ^ 31 ≤ (TypeText.deepen depth '[').toInt + n := by
        rw [hnext]
        omega
      have hdeepen : stops.deepen depth '[' = some (TypeText.deepen depth '[') :=
        if_pos ⟨hlow, hroom⟩
      rw [hdeepen, Option.map_some, Option.bind_eq_bind, Option.bind_some, ih hmore]
      rfl
    · have hdeepen : stops.deepen depth '[' = none := if_neg fun hrange => hroom hrange.2
      rw [hdeepen]
      rfl

theorem split_brackets (h : 2 ^ 31 ≤ n) (sep : Char) :
    stops.split sep (List.replicate n '[') = none :=
  splitFrom_brackets (by rw [Int32.toInt_zero]; omega) sep

end Overflow

end ApiSurface.TypeText
