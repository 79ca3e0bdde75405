import ApiSurface.ApiType.Basic
/-!
# Types in prose

How docstrings write types: names, `list of int`, `dict[str, float]`, value sets in braces,
alternatives with `or` or a bar, and after commas the modifiers `optional` and `default ...`.

Texts are cut only at the outermost level, outside brackets; commas and bars are not cut inside
quotes either.  Reading a type recurses on parts of its text, and each part is shorter than the
whole.
-/

namespace ApiSurface.TypeText

/-! ## 1. Cutting at the outermost level -/

/-- How a character changes the depth of brackets. -/
def nesting (c : Char) : Int :=
  if c == '[' || c == '(' || c == '\x7b' then 1
  else if c == ']' || c == ')' || c == '\x7d' then -1
  else 0

/-- The counter of brackets behind a character.  It has 32 bits and wraps around. -/
def deepen (depth : Int32) (c : Char) : Int32 := depth + Int32.ofInt (nesting c)

/-- Where a reader stands: how deep in brackets, as far as it counts, and in which quotes. -/
structure Place where
  depth : Int32 := 0
  quote : Option Char := none
  deriving DecidableEq

def isQuote (c : Char) : Bool := c == '\'' || c == '"'

/-- The place after a character. -/
def Place.step (p : Place) (c : Char) : Place :=
  match p.quote with
  | some q => if c = q then { p with quote := none } else p
  | none =>
    if isQuote c then { p with quote := some c } else { p with depth := deepen p.depth c }

/-- Outside quotes and brackets. -/
def Place.isOutermost (p : Place) : Bool := p.quote.isNone && p.depth == 0

/-- Puts a character in front of the first piece. -/
def consHead (c : Char) : List (List Char) → List (List Char)
  | [] => [[c]]
  | piece :: more => (c :: piece) :: more

/-- The stretches between the outermost occurrences of `sep`, starting at a place. -/
def splitFrom (sep : Char) (p : Place) : List Char → List (List Char)
  | [] => [[]]
  | c :: t =>
    if c = sep ∧ p.isOutermost = true then [] :: splitFrom sep (p.step c) t
    else consHead c (splitFrom sep (p.step c) t)

def split (sep : Char) (t : List Char) : List (List Char) := splitFrom sep {} t

/-- The stretches between occurrences of the word `or`, with its blanks, outside brackets. -/
def splitOr (depth : Int32) : List Char → List (List Char)
  | ' ' :: 'o' :: 'r' :: ' ' :: t =>
    if depth = 0 then [] :: splitOr 0 t else consHead ' ' (splitOr depth ('o' :: 'r' :: ' ' :: t))
  | c :: t => consHead c (splitOr (deepen depth c) t)
  | [] => [[]]

/-- The alternatives of a type, trimmed and without empty ones. -/
def alternatives (t : List Char) : List (List Char) :=
  (((split '|' t).flatMap (splitOr 0)).map Text.trim).filter fun a => !a.isEmpty

/-! ## 2. Parts are shorter -/

/-- The total length of some pieces. -/
def total : List (List Char) → Nat
  | [] => 0
  | piece :: more => piece.length + total more

theorem length_dropWhile_le (p : Char → Bool) (t : List Char) :
    (t.dropWhile p).length ≤ t.length := (List.dropWhile_sublist p).length_le

theorem length_dropEndWhile_le (p : Char → Bool) (t : List Char) :
    (Text.dropEndWhile p t).length ≤ t.length := by
  simpa [Text.dropEndWhile] using length_dropWhile_le p t.reverse

theorem length_trim_le (t : List Char) : (Text.trim t).length ≤ t.length :=
  Nat.le_trans (length_dropEndWhile_le _ _) (length_dropWhile_le _ _)

theorem total_consHead (c : Char) (pieces : List (List Char)) :
    total (consHead c pieces) = total pieces + 1 := by
  cases pieces with
  | nil => simp [consHead, total]
  | cons piece more => simp only [consHead, total, List.length_cons]; omega

theorem total_splitFrom_le (sep : Char) (p : Place) (t : List Char) :
    total (splitFrom sep p t) ≤ t.length := by
  induction t generalizing p with
  | nil => simp [splitFrom, total]
  | cons c t ih =>
    have := ih (p.step c)
    simp only [splitFrom]
    split
    · simp only [total, List.length_nil, List.length_cons] at *; omega
    · rw [total_consHead]; simp only [List.length_cons]; omega

theorem total_splitOr_le (depth : Int32) (t : List Char) : total (splitOr depth t) ≤ t.length := by
  fun_induction splitOr depth t with
  | case1 t ih =>
    simp only [total, List.length_nil, List.length_cons] at *
    omega
  | case2 depth t h ih => rw [total_consHead]; simp only [List.length_cons] at *; omega
  | case3 depth c t h ih => rw [total_consHead]; simp only [List.length_cons]; omega
  | case4 => simp [total]

theorem total_append (a b : List (List Char)) : total (a ++ b) = total a + total b := by
  induction a with
  | nil => simp [total]
  | cons t a ih => simp only [List.cons_append, total, ih]; omega

theorem total_flatMap_le {f : List Char → List (List Char)}
    (h : ∀ t, total (f t) ≤ t.length) (l : List (List Char)) : total (l.flatMap f) ≤ total l := by
  induction l with
  | nil => simp [total]
  | cons t l ih =>
    rw [List.flatMap_cons, total_append]
    have := h t
    simp only [total] at *
    omega

theorem total_map_le {f : List Char → List Char} (h : ∀ t, (f t).length ≤ t.length)
    (l : List (List Char)) : total (l.map f) ≤ total l := by
  induction l with
  | nil => simp [total]
  | cons t l ih =>
    have := h t
    simp only [List.map_cons, total] at *
    omega

theorem total_filter_le (p : List Char → Bool) (l : List (List Char)) :
    total (l.filter p) ≤ total l := by
  induction l with
  | nil => simp [total]
  | cons t l ih =>
    simp only [List.filter_cons]
    split <;> simp only [total] at * <;> omega

theorem total_alternatives_le (t : List Char) : total (alternatives t) ≤ t.length :=
  calc total (alternatives t)
      ≤ total (((split '|' t).flatMap (splitOr 0)).map Text.trim) := total_filter_le _ _
    _ ≤ total ((split '|' t).flatMap (splitOr 0)) := total_map_le length_trim_le _
    _ ≤ total (split '|' t) := total_flatMap_le (total_splitOr_le 0) _
    _ ≤ t.length := total_splitFrom_le _ _ _

theorem length_le_total {a : List Char} {l : List (List Char)} (h : a ∈ l) :
    a.length ≤ total l := by
  induction l with
  | nil => simp at h
  | cons t l ih =>
    simp only [total]
    rcases List.mem_cons.1 h with rfl | h
    · omega
    · have := ih h; omega

/-- Of several pieces that are not empty, each is shorter than all together. -/
theorem length_lt_total {a : List Char} {l : List (List Char)} (h : a ∈ l)
    (hl : ∀ b ∈ l, b ≠ []) (hn : 1 < l.length) : a.length < total l := by
  match l, hn with
  | b :: c :: l, _ =>
    have hb : 0 < b.length := List.length_pos_iff.2 (hl b (by simp))
    have hc : 0 < c.length := List.length_pos_iff.2 (hl c (by simp))
    simp only [total]
    rcases List.mem_cons.1 h with rfl | h
    · omega
    · have := length_le_total h
      simp only [total] at this
      omega

theorem length_lt_of_mem_alternatives {a t : List Char} (h : a ∈ alternatives t)
    (hn : 1 < (alternatives t).length) : a.length < t.length := by
  refine Nat.lt_of_lt_of_le (length_lt_total h ?_ hn) (total_alternatives_le t)
  intro b hb
  have := (List.mem_filter.1 hb).2
  simpa using this

/-! ## 3. Types -/

/-- A type given by a name alone. -/
def ofName (t : List Char) : ApiType :=
  let name := String.ofList t
  if name == "None" || name == "none" then ApiType.none
  else if ["int", "float", "str", "bool", "bytes", "complex", "object", "list", "dict", "set",
    "tuple"].contains name then .builtin name
  else if name == "string" then .builtin "str"
  else if name == "integer" then .builtin "int"
  else if name == "boolean" then .builtin "bool"
  else .named (Text.lastComponent name) name

/-- A type given by a name with arguments in brackets. -/
def subscripted (head : List Char) (args : List ApiType) : ApiType :=
  let name := Text.lastComponent (String.ofList head)
  if name == "list" || name == "List" then .list args
  else if name == "set" || name == "Set" then .setOf args
  else if name == "tuple" || name == "Tuple" then .tuple args
  else if name == "dict" || name == "Dict" then
    .dict (args.head?.getD .unknown) (args.tail.head?.getD .unknown)
  else if name == "Optional" then .unionOf (args ++ [ApiType.none])
  else if name == "Union" then .unionOf args
  else match ofName name.toList with
    | .named name qname => .namedSequence name qname args
    | t => t

/-- A text without the quotes of one kind around it. -/
def unquote (t : List Char) : List Char :=
  match t with
  | c :: more =>
    if isQuote c && more.getLast? == some c then more.dropLast else t
  | [] => t

/-- The values in a list between braces. -/
def valuesIn (t : List Char) : List String :=
  (((split ',' t).map fun v => unquote (Text.trim v)).filter fun v => !v.isEmpty).map String.ofList

/-- A type's text without blanks, backticks and tildes around it. -/
def strip (t : List Char) : List Char :=
  let t := Text.dropEndWhile (· == '\x60') ((Text.trim t).dropWhile (· == '\x60'))
  Text.trim (t.dropWhile (· == '~'))

/-- The text between the first `[` and a `]` at the end, and what stands before it. -/
def bracketed? (t : List Char) : Option (List Char × List Char) :=
  match t.dropWhile (· != '[') with
  | _ :: inner =>
    if inner.getLast? == some ']' then
      some (Text.trim (t.takeWhile (· != '[')), inner.dropLast)
    else none
  | [] => none

theorem length_strip_le (t : List Char) : (strip t).length ≤ t.length := by
  refine Nat.le_trans (length_trim_le _) (Nat.le_trans (length_dropWhile_le _ _) ?_)
  refine Nat.le_trans (length_dropEndWhile_le _ _) (Nat.le_trans (length_dropWhile_le _ _) ?_)
  exact length_trim_le t

theorem length_bracketed_lt {t head inner : List Char} (h : bracketed? t = some (head, inner)) :
    inner.length < t.length := by
  simp only [bracketed?] at h
  split at h
  · rename_i c rest hc
    have hle := length_dropWhile_le (· != '[') t
    rw [hc] at hle
    split at h
    · simp only [Option.some.injEq, Prod.mk.injEq] at h
      rw [← h.2, List.length_dropLast]
      simp only [List.length_cons] at hle
      omega
    · simp at h
  · simp at h

theorem length_le_of_mem_split {a t : List Char} {sep : Char} (h : a ∈ split sep t) :
    a.length ≤ t.length := Nat.le_trans (length_le_total h) (total_splitFrom_le _ _ _)

/-- Containers that can be named with their element type, as in `list of int`. -/
inductive Container
  | list | set | tuple
  deriving DecidableEq

/-- The words in front of the element type. -/
def Container.words : Container → List Char
  | .list => "list of ".toList
  | .set => "set of ".toList
  | .tuple => "tuple of ".toList

def Container.of : Container → List ApiType → ApiType
  | .list => .list
  | .set => .setOf
  | .tuple => .tuple

/-- The container whose words a text begins with, in any case. -/
def container? (t : List Char) : Option Container :=
  [Container.list, .set, .tuple].find? fun c => c.words.isPrefixOf (t.map Text.lower)

/-- The outermost form of a type's text, with its parts not yet read. -/
inductive Shape
  | nothing
  | values (values : List String)
  | either (members : List (List Char))
  | holding (container : Container) (element : List Char)
  | applied (head : List Char) (args : List (List Char))
  | name (text : List Char)

/-- The texts of the types inside. -/
def Shape.parts : Shape → List (List Char)
  | .nothing | .values _ | .name _ => []
  | .either members => members
  | .holding _ element => [element]
  | .applied _ args => args

/-- The type of a shape, from the types of its parts that could be read. -/
def Shape.type? : Shape → List ApiType → Option ApiType
  | .nothing, _ => none
  | .values vs, _ => some (.enumOf vs)
  | .either _, [] => none
  | .either _, types => some (.unionOf types)
  | .holding container _, types => some (container.of types)
  | .applied head _, types => some (subscripted head types)
  | .name text, _ => some (ofName text)

/-- The shape of a text that is not blank. -/
def shapeOf (t : List Char) : Shape :=
  if t.head? = some '\x7b' ∧ t.getLast? = some '\x7d' then .values (valuesIn t.tail.dropLast)
  else if 1 < (alternatives t).length then .either (alternatives t)
  else match container? t with
    | some c => .holding c (t.drop c.words.length)
    | none => match bracketed? t with
      | some (head, inner) => .applied head (split ',' inner)
      | none => .name t

def shape (text : List Char) : Shape :=
  match strip text with
  | [] => .nothing
  | c :: t => shapeOf (c :: t)

theorem length_lt_of_mem_parts_shapeOf {a t : List Char} (ht : t ≠ [])
    (h : a ∈ (shapeOf t).parts) : a.length < t.length := by
  unfold shapeOf at h
  split at h
  · simp [Shape.parts] at h
  split at h
  · exact length_lt_of_mem_alternatives h ‹_›
  split at h
  · rename_i c _
    have hpos := List.length_pos_iff.2 ht
    have hw : 0 < c.words.length := by cases c <;> decide
    simp only [Shape.parts, List.mem_singleton] at h
    rw [h, List.length_drop]
    omega
  split at h
  · exact Nat.lt_of_le_of_lt (length_le_of_mem_split h) (length_bracketed_lt ‹_›)
  · simp [Shape.parts] at h

theorem length_lt_of_mem_parts {a text : List Char} (h : a ∈ (shape text).parts) :
    a.length < text.length := by
  unfold shape at h
  split at h
  · simp [Shape.parts] at h
  · rename_i c t hs
    have := length_lt_of_mem_parts_shapeOf (List.cons_ne_nil c t) h
    rw [← hs] at this
    exact Nat.lt_of_lt_of_le this (length_strip_le text)

/-- Reads the text of one type, which has no comma at the outermost level. -/
def parseType (text : List Char) : Option ApiType :=
  (shape text).type? ((shape text).parts.attach.filterMap fun a => parseType a.1)
termination_by text.length
decreasing_by exact length_lt_of_mem_parts a.2

/-! ## 4. Types with modifiers -/

/-- What a docstring says about a type. -/
structure Declared where
  type : Option ApiType := none
  default : Option String := none
  isOptional : Bool := false
  deriving DecidableEq

/-- The value of an item that begins with `default`, if it names one. -/
def defaultOf? (item : List Char) : Option (List Char) :=
  if "default".toList.isPrefixOf (item.map Text.lower) then
    let rest := Text.trimStart (item.drop "default".length)
    let value := Text.trim (match rest with
      | '=' :: v => v
      | ':' :: v => v
      | v => v)
    if value.isEmpty then none else some value
  else none

/-- One item of a declaration. -/
inductive Item
  | optional
  | default (value : List Char)
  | type (t : List Char)

/-- What an item says; none if it is blank. -/
def item? (t : List Char) : Option Item :=
  let t := Text.trim t
  if t.isEmpty then none
  else if Text.sameIgnoringCase t "optional".toList then some .optional
  else match defaultOf? t with
    | some value => some (.default value)
    | none => some (.type t)

/-- Reads a declaration: types and modifiers between commas.  The types form a union, and of
several defaults the last counts. -/
def parse (text : List Char) : Declared :=
  let items := (split ',' (Text.trim text)).filterMap item?
  let types := items.filterMap fun
    | .type t => parseType t
    | _ => none
  let defaults := items.filterMap fun
    | .default value => some (String.ofList value)
    | _ => none
  { type := if types.isEmpty then none else some (.unionOf types)
    default := defaults.getLast?
    isOptional := items.any fun
      | .optional => true
      | _ => false }

end ApiSurface.TypeText
