import ApiSurface.Docstring.Constraint
import ApiSurface.Proofs.TypeAlternatives
/-!
# Sets of values

A set of values in braces may stand in the place of a type or somewhere in a description, and each
place has a reader of its own.  The reader of types cuts the set at commas outside quotes and takes
one pair of quotes off each piece.  The reader of descriptions searches for the braces, cuts at
every comma and takes off whatever quotes stand at the ends of a piece.

On values in quotes both give the set that was written, as long as no value has a comma in it.  The
quotes around a comma are respected by the first reader only.  For the second a value ends at its
comma, so that no value with a comma is among those it finds (`value_sets_agree_iff`).
-/

namespace ApiSurface

open TypeText (isQuote nesting Place Closed Shelters)

variable {c : Char} {s t : List Char}

/-! ## 1. What is written -/

/-- A value in quotes of either kind.  It is trimmed and not empty, and there are no quotes and no
brackets of any kind in it; all else may be, commas too. -/
structure QuotedValue where
  quote : Char
  text : List Char
  isQuote_quote : isQuote quote = true
  filled : text ≠ []
  trimmed : Text.trim text = text
  plain : ∀ c ∈ text, isQuote c = false ∧ nesting c = 0

namespace QuotedValue

def name (v : QuotedValue) : String := String.ofList v.text

def written (v : QuotedValue) : List Char := v.quote :: (v.text ++ [v.quote])

/-- Values with a comma and a blank between neighbours. -/
def listed (values : List QuotedValue) : List Char :=
  Text.joinWith [',', ' '] (values.map written)

end QuotedValue

/-- The set of some values in braces. -/
def valueSet (values : List QuotedValue) : List Char :=
  '\x7b' :: (QuotedValue.listed values ++ ['\x7d'])

/-! ## 2. A value in quotes -/

theorem eq_of_isQuote (h : isQuote c = true) : c = '\'' ∨ c = '"' := by
  simpa [isQuote] using h

/-- Quotes are neither blank nor commas nor brackets. -/
theorem isBlank_nesting_of_isQuote (h : isQuote c = true) :
    Text.isBlank c = false ∧ c ≠ ',' ∧ nesting c = 0 := by
  rcases eq_of_isQuote h with rfl | rfl <;> decide

namespace QuotedValue

variable (v : QuotedValue)

theorem quote_not_mem : v.quote ∉ v.text := by
  intro hmem
  have hplain := (v.plain _ hmem).1
  rw [v.isQuote_quote] at hplain
  cases hplain

theorem closed_written : Closed v.written :=
  Place.after_quotation v.isQuote_quote v.quote_not_mem 0 []

/-- Commas in a value are in quotes. -/
theorem shelters_written : Shelters v.written ',' := by
  obtain ⟨-, hcomma, -⟩ := isBlank_nesting_of_isQuote v.isQuote_quote
  intro before after heq
  cases before with
  | nil => exact absurd (List.cons.inj heq).1 hcomma
  | cons d before =>
    obtain ⟨rfl, hrest⟩ := List.cons.inj heq
    -- the comma is not the closing quote, so that all before it is part of the value
    have hbefore : before <+: v.text := by
      rcases List.append_eq_append_iff.1 hrest with ⟨mid, rfl, hmid⟩ | ⟨mid, hmid, -⟩
      · cases mid with
        | nil => exact absurd (List.cons.inj hmid).1 hcomma
        | cons d mid => exact absurd (congrArg List.length hmid) (by simp)
      · exact ⟨mid, hmid.symm⟩
    have hinside : v.quote ∉ before := fun hmem => v.quote_not_mem (hbefore.subset hmem)
    rw [Place.after_cons, Place.step_quote v.isQuote_quote, Place.after_of_not_mem hinside]
    rfl

theorem trim_written : Text.trim v.written = v.written := by
  obtain ⟨hblank, -, -⟩ := isBlank_nesting_of_isQuote v.isQuote_quote
  exact Text.trim_eq_self ⟨v.quote, _, rfl, hblank⟩ ⟨v.quote :: v.text, v.quote, rfl, hblank⟩

theorem unquote_written : TypeText.unquote v.written = v.text := by
  have hends : (isQuote v.quote && (v.text ++ [v.quote]).getLast? == some v.quote) = true := by
    simp [v.isQuote_quote]
  rw [written, TypeText.unquote, if_pos hends, List.dropLast_concat]

/-- The quotes at both ends are taken off, and there are no others. -/
theorem bareValue_written : Constraint.bareValue v.written = v.text := by
  have hkept : ∀ l : List Char, (∀ c ∈ l, isQuote c = false) → l.dropWhile isQuote = l := by
    intro l hl
    cases l with
    | nil => rfl
    | cons c l => exact List.dropWhile_cons_of_neg (by simp [hl c List.mem_cons_self])
  have hfront : v.written.dropWhile isQuote = v.text ++ [v.quote] := by
    obtain ⟨c, rest, hcons⟩ := List.exists_cons_of_ne_nil v.filled
    have hc : isQuote c = false := (v.plain c (by simp [hcons])).1
    rw [written, List.dropWhile_cons_of_pos v.isQuote_quote, hcons]
    exact List.dropWhile_cons_of_neg (by simp [hc])
  have hback : (v.quote :: v.text.reverse).dropWhile isQuote = v.text.reverse := by
    rw [List.dropWhile_cons_of_pos v.isQuote_quote]
    exact hkept _ fun c hc => (v.plain c (List.mem_reverse.1 hc)).1
  calc Constraint.bareValue v.written
      = Text.dropEndWhile isQuote ((Text.trim v.written).dropWhile isQuote) := rfl
    _ = ((v.quote :: v.text.reverse).dropWhile isQuote).reverse := by
      rw [v.trim_written, hfront, Text.dropEndWhile, List.reverse_concat]
    _ = v.text := by rw [hback, List.reverse_reverse]

/-- There is no brace in a value or around it. -/
theorem nesting_of_mem_written (h : c ∈ v.written) : nesting c = 0 := by
  rw [written, List.mem_cons, List.mem_append, List.mem_singleton] at h
  rcases h with rfl | h | rfl
  · exact (isBlank_nesting_of_isQuote v.isQuote_quote).2.2
  · exact (v.plain c h).2
  · exact (isBlank_nesting_of_isQuote v.isQuote_quote).2.2

/-- The pieces into which a set is to be cut, with the blanks behind the commas. -/
def pieces (first : QuotedValue) (more : List QuotedValue) : List (List Char) :=
  first.written :: more.map fun v => ' ' :: v.written

/-- A reader of single values, for which the blanks do not count, gives the values. -/
theorem filter_map_pieces {f : List Char → List Char}
    (hread : ∀ v : QuotedValue, f v.written = v.text) (hblank : ∀ t, f (' ' :: t) = f t)
    (first : QuotedValue) (more : List QuotedValue) :
    ((pieces first more).map f).filter (fun t => !t.isEmpty) = (first :: more).map text := by
  have hmap : (pieces first more).map f = (first :: more).map text := by
    rw [pieces, List.map_cons, hread, List.map_map, List.map_cons]
    refine congrArg (first.text :: ·) (List.map_congr_left fun v _ => ?_)
    exact (hblank v.written).trans (hread v)
  rw [hmap, List.filter_eq_self]
  intro t ht
  obtain ⟨v, -, rfl⟩ := List.mem_map.1 ht
  simp [v.filled]

end QuotedValue

/-! ## 3. The reader of types -/

theorem Text.trim_space_cons (t : List Char) : Text.trim (' ' :: t) = Text.trim t :=
  Text.trim_of_isBlank_append (s := [' ']) (by decide)

theorem dropEndWhile_concat {p : Char → Bool} (h : p c = false) :
    Text.dropEndWhile p (s ++ [c]) = s ++ [c] := by
  rw [Text.dropEndWhile, List.reverse_concat, List.dropWhile_cons_of_neg (by simp [h]),
    List.reverse_cons, List.reverse_reverse]

/-- Nothing is stripped from a text in braces. -/
theorem strip_braces (inner : List Char) :
    TypeText.strip ('\x7b' :: (inner ++ ['\x7d'])) = '\x7b' :: (inner ++ ['\x7d']) := by
  have htrim : Text.trim ('\x7b' :: (inner ++ ['\x7d'])) = '\x7b' :: (inner ++ ['\x7d']) :=
    Text.trim_eq_self ⟨'\x7b', _, rfl, by decide⟩ ⟨'\x7b' :: inner, '\x7d', rfl, by decide⟩
  have hfront : ∀ mark, mark ≠ '\x7b' → ('\x7b' :: (inner ++ ['\x7d'])).dropWhile (· == mark)
      = '\x7b' :: (inner ++ ['\x7d']) := by
    intro mark hmark
    exact List.dropWhile_cons_of_neg (by simpa using Ne.symm hmark)
  have hback : Text.dropEndWhile (· == '\x60') ('\x7b' :: (inner ++ ['\x7d']))
      = '\x7b' :: (inner ++ ['\x7d']) :=
    dropEndWhile_concat (s := '\x7b' :: inner) (by decide)
  rw [TypeText.strip]
  simp only [htrim, hfront '\x60' (by decide), hback, hfront '~' (by decide)]

theorem shape_braces (inner : List Char) :
    TypeText.shape ('\x7b' :: (inner ++ ['\x7d'])) = .values (TypeText.valuesIn inner) := by
  have hbraced : TypeText.IsBraced ('\x7b' :: (inner ++ ['\x7d'])) :=
    ⟨rfl, by rw [← List.cons_append, List.getLast?_concat]⟩
  rw [TypeText.shape, strip_braces]
  simp only [TypeText.shapeOf_of_isBraced hbraced, List.tail_cons, List.dropLast_concat]

/-- Commas in quotes divide nothing, so a set is cut into its values. -/
theorem split_listed (first : QuotedValue) (more : List QuotedValue) :
    TypeText.split ',' (QuotedValue.listed (first :: more)) = QuotedValue.pieces first more := by
  have hgap : Closed [' '] ∧ Shelters [' '] ',' := by decide
  have hmore : ∀ piece ∈ more.map QuotedValue.written, Closed piece ∧ Shelters piece ',' := by
    intro piece hpiece
    obtain ⟨v, -, rfl⟩ := List.mem_map.1 hpiece
    exact ⟨v.closed_written, v.shelters_written⟩
  rw [QuotedValue.listed, List.map_cons,
    TypeText.split_joinWith (by decide) hgap ⟨first.closed_written, first.shelters_written⟩ hmore,
    List.map_map]
  rfl

/-- In the place of a type, a set is read as the values that were written. -/
theorem parseType_valueSet (first : QuotedValue) (more : List QuotedValue) :
    TypeText.parseType (valueSet (first :: more))
      = some (.enumOf ((first :: more).map QuotedValue.name)) := by
  have hblank : ∀ t, TypeText.unquote (Text.trim (' ' :: t)) = TypeText.unquote (Text.trim t) := by
    intro t
    rw [Text.trim_space_cons]
  have hread : ∀ v : QuotedValue, TypeText.unquote (Text.trim v.written) = v.text := by
    intro v
    rw [v.trim_written, v.unquote_written]
  rw [TypeText.parseType_eq, valueSet, shape_braces, TypeText.valuesIn, split_listed,
    QuotedValue.filter_map_pieces hread hblank, List.map_map]
  rfl

/-! ## 4. The reader of descriptions -/

namespace Constraint

/-- A stretch in which a recogniser finds nothing is passed over. -/
theorem searchFrom_append {α : Type} {find : Recognizer α}
    (h : ∀ b c u, c ∈ s → find b (c :: u) = none) (before : Option Char) :
    ∃ b, searchFrom find before (s ++ t) = searchFrom find b t := by
  induction s generalizing before with
  | nil => exact ⟨before, rfl⟩
  | cons c s ih =>
    obtain ⟨b, hb⟩ := ih (fun b d u hd => h b d u (List.mem_cons_of_mem c hd)) (some c)
    refine ⟨b, ?_⟩
    rw [List.cons_append, searchFrom, h before c (s ++ t) List.mem_cons_self]
    exact hb

theorem braced_eq_none (hc : c ≠ '\x7b') (b : Option Char) : braced b (c :: t) = none := by
  unfold braced
  split
  · rename_i heq
    exact absurd (List.cons.inj heq).1 hc
  · rfl

theorem braced_append {inner after : List Char} (hne : inner ≠ [])
    (hinner : ∀ c ∈ inner, nesting c = 0) (b : Option Char) :
    braced b ('\x7b' :: (inner ++ '\x7d' :: after)) = some inner := by
  have hplain : ∀ c ∈ inner, (!(c == '\x7b' || c == '\x7d')) = true := by
    intro c hc
    have hnesting := hinner c hc
    have hopen : c ≠ '\x7b' := by
      rintro rfl
      exact absurd hnesting (by decide)
    have hclose : c ≠ '\x7d' := by
      rintro rfl
      exact absurd hnesting (by decide)
    simp [hopen, hclose]
  simp only [braced, List.takeWhile_append_of_pos hplain, List.dropWhile_append_of_pos hplain]
  simp [hne]

/-- The set is found wherever it stands, if no brace is opened before it. -/
theorem search_braced {before inner after : List Char} (hbefore : '\x7b' ∉ before)
    (hne : inner ≠ []) (hinner : ∀ c ∈ inner, nesting c = 0) :
    search braced (before ++ '\x7b' :: (inner ++ '\x7d' :: after)) = some inner := by
  have hskip : ∀ b c u, c ∈ before → braced b (c :: u) = none := by
    intro b c u hc
    exact braced_eq_none (fun heq => hbefore (heq ▸ hc)) b
  obtain ⟨b, hb⟩ := searchFrom_append hskip none
  rw [search, hb, searchFrom, braced_append hne hinner]

end Constraint

namespace QuotedValue

theorem nesting_of_mem_listed {values : List QuotedValue} (h : c ∈ listed values) :
    nesting c = 0 := by
  rcases Text.mem_of_mem_joinWith h with h | ⟨piece, hpiece, hc⟩
  · simp only [List.mem_cons, List.not_mem_nil, or_false] at h
    rcases h with rfl | rfl <;> rfl
  · obtain ⟨v, -, rfl⟩ := List.mem_map.1 hpiece
    exact v.nesting_of_mem_written hc

theorem listed_ne_nil (first : QuotedValue) (more : List QuotedValue) :
    listed (first :: more) ≠ [] := by
  cases more <;> simp [listed, Text.joinWith, written]

/-- Without commas in the values, all commas are between them. -/
theorem splitOn_listed {first : QuotedValue} {more : List QuotedValue}
    (h : ∀ v ∈ first :: more, ',' ∉ v.text) :
    Text.splitOn ',' (listed (first :: more)) = pieces first more := by
  have hwritten : ∀ v ∈ first :: more, ',' ∉ v.written := by
    intro v hv hmem
    obtain ⟨-, hcomma, -⟩ := isBlank_nesting_of_isQuote v.isQuote_quote
    rw [written, List.mem_cons, List.mem_append, List.mem_singleton] at hmem
    rcases hmem with heq | hmem | heq
    · exact hcomma heq.symm
    · exact h v hv hmem
    · exact hcomma heq.symm
  have hmore : ∀ piece ∈ more.map fun v => ' ' :: v.written, ',' ∉ piece := by
    intro piece hpiece
    obtain ⟨v, hv, rfl⟩ := List.mem_map.1 hpiece
    rw [List.mem_cons, not_or]
    exact ⟨by decide, hwritten v (List.mem_cons_of_mem first hv)⟩
  have hfirst : Text.splitOn ',' first.written = [first.written] := by
    rw [Text.splitOn_eq]
    exact List.splitOn_eq_singleton (hwritten first List.mem_cons_self)
  have hjoin : listed (first :: more)
      = Text.joinWith [','] (first.written :: more.map fun v => ' ' :: v.written) := by
    rw [listed, List.map_cons]
    refine (Text.joinWith_gap [','] [' '] first.written (more.map written)).trans ?_
    rw [List.map_map]
    rfl
  rw [hjoin, Text.splitOn_joinWith_cons hmore, hfirst]
  rfl

end QuotedValue

namespace Constraint

/-- The values that the reader of descriptions finds in a text. -/
def found (inner : List Char) : List (List Char) :=
  ((Text.splitOn ',' inner).map bareValue).filter fun v => !v.isEmpty

theorem values?_eq {description inner : List Char} (h : search braced description = some inner) :
    values? description
      = if found inner = [] then none else some (.enumOf ((found inner).map String.ofList)) := by
  rw [values?, h, Option.bind_eq_bind, Option.bind_some]
  unfold found
  split
  · rename_i hnone
    rw [if_pos hnone]
  · rename_i hsome
    rw [if_neg hsome]

theorem comma_not_mem_of_found {inner value : List Char} (h : value ∈ found inner) :
    ',' ∉ value := by
  obtain ⟨piece, hpiece, rfl⟩ := List.mem_map.1 (List.mem_of_mem_filter h)
  intro hmem
  have hback := (List.dropWhile_sublist _).subset (List.mem_reverse.1 hmem)
  have hfront := (List.dropWhile_sublist _).subset (List.mem_reverse.1 hback)
  exact Text.not_mem_of_mem_splitOn hpiece (TypeText.mem_of_mem_trim hfront)

end Constraint

theorem mem_iff_of_enumOf_eq {values values' : List String} {name : String}
    (h : ApiType.enumOf values = .enumOf values') : name ∈ values ↔ name ∈ values' := by
  have hset : (Ascending.ofList values : NameSet) = Ascending.ofList values' := ApiType.enum.inj h
  rw [← NameSet.mem_ofList, hset, NameSet.mem_ofList]

section Agreement

variable {first : QuotedValue} {more : List QuotedValue} {before after : List Char}
  (hbefore : '\x7b' ∉ before)

include hbefore

theorem search_valueSet :
    Constraint.search Constraint.braced (before ++ valueSet (first :: more) ++ after)
      = some (QuotedValue.listed (first :: more)) := by
  have htext : before ++ valueSet (first :: more) ++ after
      = before ++ '\x7b' :: (QuotedValue.listed (first :: more) ++ '\x7d' :: after) := by
    simp [valueSet]
  rw [htext]
  exact Constraint.search_braced hbefore (QuotedValue.listed_ne_nil first more)
    fun c hc => QuotedValue.nesting_of_mem_listed hc

/-- Without commas in the values, the set is found in a description as it was written. -/
theorem values?_valueSet (h : ∀ v ∈ first :: more, ',' ∉ v.text) :
    Constraint.values? (before ++ valueSet (first :: more) ++ after)
      = some (.enumOf ((first :: more).map QuotedValue.name)) := by
  have hblank : ∀ t, Constraint.bareValue (' ' :: t) = Constraint.bareValue t := by
    intro t
    rw [Constraint.bareValue, Constraint.bareValue, Text.trim_space_cons]
  have hfound : Constraint.found (QuotedValue.listed (first :: more))
      = (first :: more).map QuotedValue.text := by
    rw [Constraint.found, QuotedValue.splitOn_listed h,
      QuotedValue.filter_map_pieces QuotedValue.bareValue_written hblank]
  rw [Constraint.values?_eq (search_valueSet hbefore), hfound, if_neg (by simp), List.map_map]
  rfl

/-- A value with a comma is not among those that are found. -/
theorem comma_not_mem_of_values?
    (h : Constraint.values? (before ++ valueSet (first :: more) ++ after)
      = some (.enumOf ((first :: more).map QuotedValue.name))) :
    ∀ v ∈ first :: more, ',' ∉ v.text := by
  intro v hv
  rw [Constraint.values?_eq (search_valueSet hbefore)] at h
  split at h
  · cases h
  · have hname := (mem_iff_of_enumOf_eq (Option.some.inj h)).2 (List.mem_map_of_mem hv)
    obtain ⟨value, hvalue, heq⟩ := List.mem_map.1 hname
    rw [← show value = v.text from String.ofList_injective heq]
    exact Constraint.comma_not_mem_of_found hvalue

end Agreement

/-- **The two readers of value sets agree exactly on values without commas.**  A set of one or more
values in quotes, taken for a type, is the set of just these values.  In a description, with no
brace opened before the set, the same is found if no value has a comma in it, and never if one
has. -/
theorem value_sets_agree_iff {values : List QuotedValue} (hne : values ≠ []) {before : List Char}
    (hbefore : '\x7b' ∉ before) (after : List Char) :
    TypeText.parseType (valueSet values) = some (.enumOf (values.map QuotedValue.name))
      ∧ (Constraint.values? (before ++ valueSet values ++ after)
          = some (.enumOf (values.map QuotedValue.name))
        ↔ ∀ v ∈ values, ',' ∉ v.text) := by
  obtain ⟨first, more, rfl⟩ := List.exists_cons_of_ne_nil hne
  exact ⟨parseType_valueSet first more, comma_not_mem_of_values? hbefore, values?_valueSet hbefore⟩

theorem plain_of_all {text : List Char}
    (h : text.all (fun c => !isQuote c && nesting c == 0) = true) :
    ∀ c ∈ text, isQuote c = false ∧ nesting c = 0 := by
  intro c hc
  simpa using List.all_eq_true.1 h c hc

namespace Sample

def linear : QuotedValue where
  quote := '\''
  text := "linear".toList
  isQuote_quote := by decide
  filled := by decide
  trimmed := by decide +kernel
  plain := plain_of_all (by decide +kernel)

def nearestUp : QuotedValue where
  quote := '"'
  text := "nearest up".toList
  isQuote_quote := by decide
  filled := by decide
  trimmed := by decide +kernel
  plain := plain_of_all (by decide +kernel)

/-- Both kinds of quotes, and a blank inside a value. -/
theorem interpolations_agree :
    TypeText.parseType "\x7b'linear', \"nearest up\"\x7d".toList
        = some (.enumOf ["linear", "nearest up"])
      ∧ Constraint.values? "Either \x7b'linear', \"nearest up\"\x7d.".toList
        = some (.enumOf ["linear", "nearest up"]) := by
  have hcomma : ∀ v ∈ [linear, nearestUp], ',' ∉ v.text := by
    simp only [List.forall_mem_cons]
    exact ⟨by decide, by decide, fun v hv => absurd hv List.not_mem_nil⟩
  obtain ⟨htype, hfound⟩ := value_sets_agree_iff (List.cons_ne_nil linear [nearestUp])
    (by decide : '\x7b' ∉ "Either ".toList) ".".toList
  exact ⟨htype, hfound.2 hcomma⟩

def letters : QuotedValue where
  quote := '\''
  text := "a,b".toList
  isQuote_quote := by decide
  filled := by decide
  trimmed := by decide +kernel
  plain := plain_of_all (by decide +kernel)

/-- A single value with a comma is found as two. -/
theorem value_divided_at_comma :
    valueSet [letters] = "\x7b'a,b'\x7d".toList
      ∧ TypeText.parseType (valueSet [letters]) = some (.enumOf ["a,b"])
      ∧ Constraint.values? ("One of ".toList ++ valueSet [letters] ++ ".".toList)
        = some (.enumOf ["a", "b"])
      ∧ ApiType.enumOf ["a", "b"] ≠ .enumOf ["a,b"] := by
  decide +kernel

end Sample

end ApiSurface
