import ApiSurface.Proofs.BracketDepth
import ApiSurface.Proofs.CanonicalTypes
import ApiSurface.Proofs.InferredSlots
/-!
# Modifiers beside types

A declaration is a list with commas: types, the word `optional`, and defaults.  Commas in brackets
or quotes divide nothing, so a list of closed texts is taken apart into these texts again, and what
is said by the whole is what the items say one by one.

An item counts as a default by its first seven letters alone.  That is meant for `default=3` and the
like, but it also takes in a type whose name goes on behind them, as that of `defaultdict` does: the
item is read as the default `dict`, and no type is left.  This is the only way in which a type is
lost (`modifiers_read_iff`).
-/

namespace ApiSurface.TypeText

/-! ## 1. What is written -/

/-- That a text is the word `default`, in any case. -/
def IsDefaultWord (word : List Char) : Prop := word.map Text.lower = "default".toList

instance : DecidablePred IsDefaultWord := fun word =>
  inferInstanceAs (Decidable (word.map Text.lower = "default".toList))

theorem IsDefaultWord.take_drop {word rest : List Char} (h : IsDefaultWord word) :
    (word ++ rest).take 7 = word ∧ (word ++ rest).drop 7 = rest := by
  have hlength : word.length = 7 := by
    rw [← List.length_map Text.lower, h]
    rfl
  rw [← hlength]
  exact ⟨List.take_left, List.drop_left⟩

/-- A trimmed text that is one item and no modifier: its brackets and quotes are closed, it has no
comma outside them, and it is neither `optional` nor `default` with a mark or a blank behind it.  It
is short enough for brackets to be counted. -/
structure PlainText where
  text : List Char
  short : text.length < 2 ^ 32
  trimmed : Text.trim text = text
  closed : NothingOpen text
  comma : OnlyInside ',' text
  not_optional : Text.sameIgnoringCase text "optional".toList = false
  not_default : ∀ word mark rest, text = word ++ mark :: rest → IsDefaultWord word →
    mark ≠ '=' ∧ mark ≠ ':' ∧ Text.isBlank mark = false

/-- That a text goes on behind the word `default`. -/
def PlainText.ExtendsDefault (p : PlainText) : Prop :=
  ∃ word rest, p.text = word ++ rest ∧ IsDefaultWord word ∧ rest ≠ []

/-- A value behind `default=`. -/
structure DefaultValue where
  text : List Char
  filled : ¬ Text.IsBlank text
  unmarked : ∀ c ∈ text, c ≠ ',' ∧ isQuote c = false ∧ nesting c = 0

inductive WrittenItem
  | plain (p : PlainText)
  | optional
  | default (value : DefaultValue)

namespace WrittenItem

def text : WrittenItem → List Char
  | .plain p => p.text
  | .optional => "optional".toList
  | .default value => "default=".toList ++ value.text

def type? : WrittenItem → Option ApiType
  | .plain p => parseType p.text
  | .optional | .default _ => none

def default? : WrittenItem → Option String
  | .default value => some (String.ofList (Text.trim value.text))
  | .plain _ | .optional => none

def isOptional : WrittenItem → Bool
  | .optional => true
  | .plain _ | .default _ => false

end WrittenItem

/-- Items with commas and the same blanks between them. -/
def renderItems (gap : List Char) (items : List WrittenItem) : List Char :=
  Text.joinWith (',' :: gap) (items.map WrittenItem.text)

/-- What a list of items declares: the union of the types, and the last of the defaults. -/
def declaredBy (items : List WrittenItem) : Declared where
  type := match items.filterMap WrittenItem.type? with
    | [] => none
    | types => some (.unionOf types)
  default := (items.filterMap WrittenItem.default?).getLast?
  isOptional := items.any WrittenItem.isOptional

/-! ## 2. Items -/

theorem item?_trim (t : List Char) : item? (Text.trim t) = item? t := by
  rw [item?, item?, Text.trim_trim]

namespace Item

def type? : Item → Option ApiType
  | .type t => parseType t
  | _ => none

def default? : Item → Option String
  | .default value => some (String.ofList value)
  | _ => none

def isOptional : Item → Bool
  | .optional => true
  | _ => false

end Item

/-- What some items declare. -/
def ofItems (items : List Item) : Declared where
  type := if (items.filterMap Item.type?).isEmpty then none
    else some (.unionOf (items.filterMap Item.type?))
  default := (items.filterMap Item.default?).getLast?
  isOptional := items.any Item.isOptional

theorem parse_eq (text : List Char) :
    parse text = ofItems ((split ',' (Text.trim text)).filterMap item?) := rfl

/-- What stands behind the word `default`, without the mark that it may begin with. -/
def valueBehind (rest : List Char) : List Char :=
  Text.trim (match Text.trimStart rest with
    | '=' :: value => value
    | ':' :: value => value
    | value => value)

theorem valueBehind_cons {c : Char} {rest : List Char} (hblank : Text.isBlank c = false)
    (hequals : c ≠ '=') (hcolon : c ≠ ':') : valueBehind (c :: rest) = Text.trim (c :: rest) := by
  rw [valueBehind, Text.trimStart_cons hblank]
  split
  · rename_i heq
    exact absurd (List.cons.inj heq).1 hequals
  · rename_i heq
    exact absurd (List.cons.inj heq).1 hcolon
  · rfl

theorem defaultOf?_append {word : List Char} (hword : IsDefaultWord word) (rest : List Char) :
    defaultOf? (word ++ rest)
      = if (valueBehind rest).isEmpty then none else some (valueBehind rest) := by
  have hprefix : "default".toList.isPrefixOf ((word ++ rest).map Text.lower) = true := by
    rw [List.isPrefixOf_iff_prefix, List.map_append, hword]
    exact List.prefix_append _ _
  have hdrop : (word ++ rest).drop "default".length = rest := hword.take_drop.2
  rw [defaultOf?, if_pos hprefix, hdrop]
  rfl

/-- A text is taken for a default only if it begins with the word. -/
theorem exists_of_defaultOf?_eq_some {t value : List Char} (h : defaultOf? t = some value) :
    ∃ word rest, t = word ++ rest ∧ IsDefaultWord word := by
  unfold defaultOf? at h
  split at h
  · rename_i hprefix
    obtain ⟨rest, heq⟩ := List.isPrefixOf_iff_prefix.1 hprefix
    obtain ⟨word, rest', rfl, hword, -⟩ := List.map_eq_append_iff.1 heq.symm
    exact ⟨word, rest', rfl, hword⟩
  · cases h

namespace PlainText

variable {p : PlainText}

theorem shelters_text (p : PlainText) : Shelters p.text ',' :=
  (onlyInside_iff_shelters p.short).1 p.comma

/-- What goes on behind the word is taken for the value. -/
theorem defaultOf?_of_extends {word rest : List Char} (htext : p.text = word ++ rest)
    (hword : IsDefaultWord word) (hne : rest ≠ []) :
    defaultOf? p.text = some (Text.trim rest) := by
  obtain ⟨mark, rest, rfl⟩ := List.exists_cons_of_ne_nil hne
  obtain ⟨hequals, hcolon, hblank⟩ := p.not_default word mark rest htext hword
  have hfilled : ¬ Text.trim (mark :: rest) = [] := fun h => by
    rw [Text.trim_eq_nil_iff.1 h mark List.mem_cons_self] at hblank
    cases hblank
  rw [htext, defaultOf?_append hword, valueBehind_cons hblank hequals hcolon,
    if_neg (by simpa using hfilled)]

/-- The word alone has no value behind it, and other texts do not begin with it. -/
theorem defaultOf?_of_not_extends (h : ¬ p.ExtendsDefault) : defaultOf? p.text = none := by
  cases hvalue : defaultOf? p.text with
  | none => rfl
  | some value =>
    obtain ⟨word, rest, htext, hword⟩ := exists_of_defaultOf?_eq_some hvalue
    have hrest : rest = [] := by_contra fun hne => h ⟨word, rest, htext, hword, hne⟩
    rw [htext, defaultOf?_append hword, hrest] at hvalue
    cases hvalue

theorem item?_text (h : ¬ p.ExtendsDefault) :
    item? p.text = if p.text = [] then none else some (.type p.text) := by
  simp only [item?, p.trimmed, p.not_optional, defaultOf?_of_not_extends h, List.isEmpty_iff]
  simp

/-- **A type whose name extends the word is lost.**  The rest of the name is taken for a default. -/
theorem parse_of_extends {word rest : List Char} (htext : p.text = word ++ rest)
    (hword : IsDefaultWord word) (hne : rest ≠ []) :
    parse p.text = { default := some (String.ofList (Text.trim rest)) } := by
  have hempty : p.text.isEmpty = false := by simp [htext, hne]
  have hitem : item? p.text = some (.default (Text.trim rest)) := by
    simp only [item?, p.trimmed, p.not_optional, hempty, defaultOf?_of_extends htext hword hne]
    rfl
  rw [parse_eq, p.trimmed, split_eq_singleton p.shelters_text, List.filterMap_cons, hitem]
  rfl

end PlainText

/-- What an item says, for items in which no type goes on behind `default`. -/
def WrittenItem.item? : WrittenItem → Option Item
  | .plain p => if p.text = [] then none else some (.type p.text)
  | .optional => some .optional
  | .default value => some (.default (Text.trim value.text))

theorem DefaultValue.item?_text (value : DefaultValue) :
    TypeText.item? ("default=".toList ++ value.text)
      = some (.default (Text.trim value.text)) := by
  have htrim : Text.trim ("default=".toList ++ value.text)
      = "default".toList ++ '=' :: Text.trimEnd value.text :=
    Text.trimEnd_append_cons (s := "default".toList) (by decide)
  have hfilled : ¬ Text.trim value.text = [] := mt Text.trim_eq_nil_iff.1 value.filled
  have hvalue : valueBehind ('=' :: Text.trimEnd value.text) = Text.trim value.text :=
    Text.trim_trimEnd value.text
  have hdefault : defaultOf? ("default".toList ++ '=' :: Text.trimEnd value.text)
      = some (Text.trim value.text) := by
    rw [defaultOf?_append (by decide : IsDefaultWord "default".toList), hvalue,
      if_neg (by simpa using hfilled)]
  rw [TypeText.item?, htrim, hdefault]
  rfl

namespace WrittenItem

theorem item?_text {w : WrittenItem} (h : ∀ p, w = .plain p → ¬ p.ExtendsDefault) :
    TypeText.item? w.text = w.item? := by
  cases w with
  | plain p => exact PlainText.item?_text (h p rfl)
  | optional => rfl
  | default value => exact value.item?_text

theorem closed_shelters_text (w : WrittenItem) : Closed w.text ∧ Shelters w.text ',' := by
  cases w with
  | plain p => exact ⟨p.closed.closed, p.shelters_text⟩
  | optional => exact ⟨by decide, shelters_of_not_mem (by decide)⟩
  | default value =>
    have hunquoted : Unquoted value.text := fun c hc => (value.unmarked c hc).2.1
    have hclosed : Closed value.text :=
      closed_of_unquoted hunquoted (rise_eq_zero fun c hc => (value.unmarked c hc).2.2)
    have hcomma : ',' ∉ value.text := fun hmem => (value.unmarked ',' hmem).1 rfl
    exact ⟨Closed.append (by decide) hclosed,
      Shelters.append (by decide) (shelters_of_not_mem (by decide)) (shelters_of_not_mem hcomma)⟩

end WrittenItem

/-! ## 3. Lists of items -/

/-- The items of a list are found again. -/
theorem items_render {gap : List Char} {items : List WrittenItem} (hgap : Text.IsBlank gap)
    (h : ∀ p, .plain p ∈ items → ¬ p.ExtendsDefault) :
    (split ',' (Text.trim (renderItems gap items))).filterMap item?
      = items.filterMap WrittenItem.item? := by
  have htrim : ∀ pieces : List (List Char),
      pieces.filterMap item? = (pieces.map Text.trim).filterMap item? := by
    intro pieces
    rw [List.filterMap_map, show item? ∘ Text.trim = item? from funext item?_trim]
  have hitems : (items.map WrittenItem.text).filterMap item?
      = items.filterMap WrittenItem.item? := by
    rw [List.filterMap_map]
    exact List.filterMap_congr fun w hw => WrittenItem.item?_text fun p hp => h p (hp ▸ hw)
  rw [← hitems, htrim, map_trim_split_trim (by decide), htrim (items.map _), renderItems]
  cases items with
  | nil => rfl
  | cons first more =>
    have hmore : ∀ piece ∈ more.map WrittenItem.text, Closed piece ∧ Shelters piece ',' := by
      intro piece hpiece
      obtain ⟨w, -, rfl⟩ := List.mem_map.1 hpiece
      exact w.closed_shelters_text
    have hblanks : (more.map WrittenItem.text).map (Text.trim ∘ (gap ++ ·))
        = (more.map WrittenItem.text).map Text.trim :=
      List.map_congr_left fun piece _ => Text.trim_of_isBlank_append hgap
    rw [List.map_cons, split_joinWith (by decide) ⟨closed_of_isBlank hgap,
      shelters_of_not_mem (not_mem_of_isBlank (by decide) hgap)⟩ first.closed_shelters_text hmore,
      List.map_cons, List.map_map, hblanks, List.map_cons]

theorem ofItems_written (items : List WrittenItem) :
    ofItems (items.filterMap WrittenItem.item?) = declaredBy items := by
  have htype : ∀ w : WrittenItem, w.item?.bind Item.type? = w.type? := by
    intro w
    cases w with
    | plain p =>
      rw [WrittenItem.item?, WrittenItem.type?]
      split
      · rename_i hempty
        rw [hempty, parseType]
        rfl
      · rfl
    | optional => rfl
    | default value => rfl
  have hdefault : ∀ w : WrittenItem, w.item?.bind Item.default? = w.default? := by
    intro w
    cases w with
    | plain p =>
      rw [WrittenItem.item?]
      split <;> rfl
    | optional => rfl
    | default value => rfl
  have hoptional : ∀ w : WrittenItem, w.item?.any Item.isOptional = w.isOptional := by
    intro w
    cases w with
    | plain p =>
      rw [WrittenItem.item?]
      split <;> rfl
    | optional => rfl
    | default value => rfl
  rw [ofItems, declaredBy, List.filterMap_filterMap, List.filterMap_filterMap, List.any_filterMap,
    funext htype, funext hdefault]
  congr 1
  · cases items.filterMap WrittenItem.type? <;> rfl
  · exact congrArg items.any (funext hoptional)

/-- A list is read as its items say, if no type in it extends the word `default`. -/
theorem parse_renderItems {gap : List Char} {items : List WrittenItem} (hgap : Text.IsBlank gap)
    (h : ∀ p, .plain p ∈ items → ¬ p.ExtendsDefault) :
    parse (renderItems gap items) = declaredBy items := by
  rw [parse_eq, items_render hgap h, ofItems_written]

theorem PlainText.parse_of_not_extends {p : PlainText} (h : ¬ p.ExtendsDefault) :
    parse p.text = { type := parseType p.text } := by
  have hone : parse (renderItems [] [.plain p]) = declaredBy [.plain p] := by
    refine parse_renderItems Text.isBlank_nil fun q hq => ?_
    rw [List.mem_singleton, WrittenItem.plain.injEq] at hq
    exact hq ▸ h
  refine Eq.trans hone ?_
  cases htype : parseType p.text with
  | none =>
    simp [declaredBy, WrittenItem.type?, WrittenItem.default?, WrittenItem.isOptional, htype]
  | some t =>
    have hunion : ApiType.unionOf [t] = t :=
      ApiType.unionOf_singleton (sound_parseType _ t htype t (.whole t)).1
    simp [declaredBy, WrittenItem.type?, WrittenItem.default?, WrittenItem.isOptional, htype,
      hunion]

/-- **Modifiers swallow no type but one that extends their word.**  A plain text alone is read as a
type and nothing else, unless it goes on behind the word `default`: then it is never read so.  In a
list without such texts the items may stand in any order: the types of the plain texts form a union,
the declaration is optional exactly if one item says so, and of the defaults the last counts. -/
theorem modifiers_read_iff (p : PlainText) (gap : List Char) (items : List WrittenItem) :
    (parse p.text = { type := parseType p.text } ↔ ¬ p.ExtendsDefault)
      ∧ (Text.IsBlank gap → (∀ q, .plain q ∈ items → ¬ q.ExtendsDefault) →
        parse (renderItems gap items) = declaredBy items) := by
  refine ⟨⟨?_, PlainText.parse_of_not_extends⟩, parse_renderItems⟩
  rintro hparse ⟨word, rest, htext, hword, hne⟩
  rw [PlainText.parse_of_extends htext hword hne] at hparse
  cases congrArg Declared.default hparse

namespace Sample

/-- A type with a comma in brackets and quotes. -/
def choice : PlainText where
  text := "Literal['a, b', 'c']".toList
  short := by decide +kernel
  trimmed := by decide +kernel
  closed := (nothingOpen_iff_closed (by decide +kernel)).2 (by decide +kernel)
  comma := (onlyInside_iff_shelters (by decide +kernel)).2 (by decide +kernel)
  not_optional := by decide +kernel
  not_default := fun word mark rest heq hword => by
    rw [← (heq ▸ hword.take_drop.1 : "Literal['a, b', 'c']".toList.take 7 = word)] at hword
    exact absurd hword (by decide +kernel)

def digit (c : Char) (h : Text.isBlank c = false)
    (hunmarked : c ≠ ',' ∧ isQuote c = false ∧ nesting c = 0) : DefaultValue where
  text := [c]
  filled := fun hblank => by rw [hblank c List.mem_cons_self] at h; cases h
  unmarked := fun d hd => by rw [List.mem_singleton.1 hd]; exact hunmarked

/-- Two defaults around a type and the word `optional`. -/
theorem choice_with_modifiers_read :
    parse "default=1, Literal['a, b', 'c'], optional, default=2".toList
      = { type := parseType "Literal['a, b', 'c']".toList, default := some "2"
          isOptional := true } := by
  have hplain : ¬ choice.ExtendsDefault := by
    rintro ⟨word, rest, heq, hword, -⟩
    rw [← (heq ▸ hword.take_drop.1 : choice.text.take 7 = word)] at hword
    exact absurd hword (by decide +kernel)
  have hread := (modifiers_read_iff choice [' ']
    [.default (digit '1' (by decide) (by decide)), .plain choice, .optional,
      .default (digit '2' (by decide) (by decide))]).2 (by decide) fun p hp => by
        have hchoice : p = choice := by simpa using hp
        rwa [hchoice]
  have htext : renderItems [' ']
      [.default (digit '1' (by decide) (by decide)), .plain choice, .optional,
        .default (digit '2' (by decide) (by decide))]
      = "default=1, Literal['a, b', 'c'], optional, default=2".toList := by
    decide +kernel
  rw [← htext, hread]
  decide +kernel

/-- A type whose name begins like a default. -/
def defaultdict : PlainText where
  text := "defaultdict".toList
  short := by decide +kernel
  trimmed := by decide +kernel
  closed := (nothingOpen_iff_closed (by decide +kernel)).2 (by decide +kernel)
  comma := (onlyInside_iff_shelters (by decide +kernel)).2 (by decide +kernel)
  not_optional := by decide +kernel
  not_default := fun word mark rest heq hword => by
    have hrest : "defaultdict".toList.drop 7 = mark :: rest := heq ▸ hword.take_drop.2
    have hmark : mark = 'd' := (List.cons.inj hrest).1.symm
    rw [hmark]
    decide

/-- The type is swallowed. -/
theorem defaultdict_swallowed :
    parse defaultdict.text = { default := some "dict" }
      ∧ parseType defaultdict.text = some (.named "defaultdict" "defaultdict") := by
  decide +kernel

end Sample

end ApiSurface.TypeText
