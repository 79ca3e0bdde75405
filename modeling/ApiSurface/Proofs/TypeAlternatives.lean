import ApiSurface.Proofs.OutermostCuts
import ApiSurface.Proofs.UnionLaws
/-!
# Types with alternatives

Two types with a bar or the word `or` between them are read as their union.  The alternatives of the
whole are those of the two sides, and a side that has several of its own is a union already, which
the union of the whole dissolves.

That a text is a value set is seen by its first and last characters, and this is asked before the
text is cut.  A text that begins with one value set and ends with another is therefore taken for a
single one.  Where no text is mistaken in this way the union is what is read, and where the whole is
mistaken the union of two different types never is (`joined_types_read`).
-/

namespace ApiSurface.TypeText

variable {c : Char} {s t : List Char}

/-! ## 1. Reading a text by its shape -/

theorem parseType_eq (text : List Char) :
    parseType text = (shape text).type? ((shape text).parts.filterMap parseType) := by
  have hparts : ((shape text).parts.attach.filterMap fun a => parseType a.1)
      = (shape text).parts.filterMap parseType := by
    conv_rhs => rw [← List.attach_map_subtype_val (shape text).parts, List.filterMap_map]
    rfl
  rw [parseType, hparts]

/-- That a text has no quotes, and none of the marks that are stripped from its ends. -/
def Unadorned (t : List Char) : Prop := ∀ c ∈ t, isQuote c = false ∧ c ≠ '\x60' ∧ c ≠ '~'

instance : DecidablePred Unadorned := fun t => List.decidableBAll _ t

theorem Unadorned.unquoted (h : Unadorned t) : Unquoted t := fun c hc => (h c hc).1

theorem Unadorned.append (hs : Unadorned s) (ht : Unadorned t) : Unadorned (s ++ t) :=
  List.forall_mem_append.2 ⟨hs, ht⟩

theorem unadorned_of_isBlank (h : Text.IsBlank t) : Unadorned t := by
  intro c hc
  refine ⟨(isQuote_nesting_of_isBlank (h c hc)).1, ?_, ?_⟩ <;>
  · rintro rfl
    exact absurd (h _ hc) (by decide)

theorem mem_of_mem_trim (h : c ∈ Text.trim t) : c ∈ t := by
  obtain ⟨b, b', -, -, heq⟩ := Text.exists_trim t
  rw [heq]
  exact List.mem_append_right _ (List.mem_append_left _ h)

theorem Unadorned.trim (h : Unadorned t) : Unadorned (Text.trim t) := fun c hc =>
  h c (mem_of_mem_trim hc)

/-- There is nothing but blanks to strip. -/
theorem Unadorned.strip_eq (h : Unadorned t) : strip t = Text.trim t := by
  have hkept : ∀ {u : List Char} (p : Char → Bool), (∀ c ∈ u, p c = false) → u.dropWhile p = u := by
    intro u p hp
    cases u with
    | nil => rfl
    | cons c u => exact List.dropWhile_cons_of_neg (by simp [hp c List.mem_cons_self])
  have htick : ∀ c ∈ Text.trim t, (c == '\x60') = false := fun c hc =>
    beq_false_of_ne (h.trim c hc).2.1
  have htilde : ∀ c ∈ Text.trim t, (c == '~') = false := fun c hc =>
    beq_false_of_ne (h.trim c hc).2.2
  have hback : Text.dropEndWhile (· == '\x60') (Text.trim t) = Text.trim t := by
    rw [Text.dropEndWhile, hkept _ fun c hc => htick c (List.mem_reverse.1 hc),
      List.reverse_reverse]
  rw [strip]
  simp only [hkept _ htick, hback, hkept _ htilde, Text.trim_trim]

theorem Unadorned.parseType_trim (h : Unadorned t) : parseType (Text.trim t) = parseType t := by
  have hshape : shape (Text.trim t) = shape t := by
    rw [shape, shape, h.trim.strip_eq, h.strip_eq, Text.trim_trim]
  rw [parseType_eq, parseType_eq, hshape]

theorem Unadorned.shape_eq (h : Unadorned t) (htrim : Text.trim t = t) (hne : t ≠ []) :
    shape t = shapeOf t := by
  rw [shape, h.strip_eq, htrim]
  cases t with
  | nil => exact absurd rfl hne
  | cons c t => rfl

/-- That a text begins and ends as a value set does. -/
def IsBraced (t : List Char) : Prop := t.head? = some '\x7b' ∧ t.getLast? = some '\x7d'

instance : DecidablePred IsBraced := fun t =>
  inferInstanceAs (Decidable (t.head? = some '\x7b' ∧ t.getLast? = some '\x7d'))

theorem isBraced_append (hs : s ≠ []) (ht : t ≠ []) :
    IsBraced (s ++ t) ↔ s.head? = some '\x7b' ∧ t.getLast? = some '\x7d' := by
  rw [IsBraced, List.head?_append_of_ne_nil _ hs, List.getLast?_append_of_ne_nil _ ht]

theorem shapeOf_of_isBraced (h : IsBraced t) : shapeOf t = .values (valuesIn t.tail.dropLast) :=
  if_pos h

theorem shapeOf_of_many (h : ¬ IsBraced t) (hmany : 1 < (alternatives t).length) :
    shapeOf t = .either (alternatives t) :=
  (if_neg h).trans (if_pos hmany)

/-! ## 2. The sides of a bar -/

/-- A text that is read as a type and may stand beside a bar or the word `or`: its brackets are
balanced, there are no quotes, backticks and tildes in it, no bar at its ends, and it is not taken
for a value set while it has several alternatives. -/
@[mk_iff]
structure Side (text : List Char) (type : ApiType) : Prop where
  unadorned : Unadorned text
  balanced : rise text = 0
  read : parseType text = some type
  not_bar_first : ¬ ['|'] <+: Text.trim text
  not_bar_last : ¬ ['|'] <:+ Text.trim text
  not_mistaken : IsBraced (Text.trim text) → ¬ 1 < (alternatives (Text.trim text)).length

instance (text : List Char) (type : ApiType) : Decidable (Side text type) :=
  decidable_of_iff' _ (side_iff text type)

namespace Side

variable {text : List Char} {type : ApiType} (h : Side text type)

include h

theorem trim_ne_nil : Text.trim text ≠ [] := by
  intro hempty
  have hread := h.read
  rw [parseType_eq, shape, h.unadorned.strip_eq, hempty] at hread
  cases hread

theorem rise_trim : rise (Text.trim text) = 0 := by
  obtain ⟨b, b', hb, hb', heq⟩ := Text.exists_trim text
  have hbalanced := h.balanced
  rw [heq, rise_append, rise_append, rise_of_isBlank hb, rise_of_isBlank hb'] at hbalanced
  omega

theorem canonical : type.Canonical := (sound_parseType text type h.read).canonical

/-- The alternatives of a side are read as types whose union is its own. -/
theorem unionOf_alternatives :
    (alternatives (Text.trim text)).filterMap parseType ≠ []
      ∧ .unionOf ((alternatives (Text.trim text)).filterMap parseType) = type := by
  have hread : parseType (Text.trim text) = some type := h.unadorned.parseType_trim.trans h.read
  by_cases hmany : 1 < (alternatives (Text.trim text)).length
  · have hshape : shape (Text.trim text) = .either (alternatives (Text.trim text)) := by
      rw [h.unadorned.trim.shape_eq (Text.trim_trim text) h.trim_ne_nil]
      exact shapeOf_of_many (fun hbraced => h.not_mistaken hbraced hmany) hmany
    rw [parseType_eq, hshape] at hread
    cases hmembers : (alternatives (Text.trim text)).filterMap parseType with
    | nil =>
      rw [Shape.parts, hmembers] at hread
      cases hread
    | cons first more =>
      rw [Shape.parts, hmembers] at hread
      exact ⟨by simp, Option.some.inj hread⟩
  · have hone : alternatives (Text.trim text) = [Text.trim text] :=
      alternatives_eq_singleton h.unadorned.trim.unquoted (Text.trim_trim text) h.trim_ne_nil
        h.not_bar_first h.not_bar_last hmany
    rw [hone, List.filterMap_cons, hread]
    exact ⟨by simp, ApiType.unionOf_singleton (h.canonical type (.whole type))⟩

theorem length_alternatives_pos : 0 < (alternatives (Text.trim text)).length := by
  refine List.length_pos_iff.2 fun hnone => h.unionOf_alternatives.1 ?_
  rw [hnone, List.filterMap_nil]

end Side

/-! ## 3. Both sides -/

/-- Two texts with a mark and blanks between them. -/
def between (a left mark right b : List Char) : List Char := a ++ left ++ (mark ++ (right ++ b))

theorem between_eq_append (a left mark right b : List Char) :
    between a left mark right b = a ++ (left ++ mark ++ right) ++ b := by
  simp [between]

/-- Blanks inside stay, and those around are trimmed away. -/
theorem trim_between {a b : List Char} (left mark right : List Char) (ha : Text.trim a ≠ [])
    (hb : Text.trim b ≠ []) :
    ∃ behind before, Text.IsBlank behind ∧ Text.IsBlank before
      ∧ Text.trim (between a left mark right b)
        = between (Text.trim a) (behind ++ left) mark (right ++ before) (Text.trim b) := by
  obtain ⟨l, behind, hl, hbehind, heqa⟩ := Text.exists_trim a
  obtain ⟨before, r, hbefore, hr, heqb⟩ := Text.exists_trim b
  refine ⟨behind, before, hbehind, hbefore, ?_⟩
  have hwhole : between a left mark right b
      = l ++ (between (Text.trim a) (behind ++ left) mark (right ++ before) (Text.trim b)
        ++ r) := by
    conv_lhs => rw [heqa, heqb]
    simp [between]
  obtain ⟨c, rest, hcons, hc⟩ := Text.exists_cons_of_trim_eq_self (Text.trim_trim a) ha
  obtain ⟨init, d, hconcat, hd⟩ := Text.exists_concat_of_trim_eq_self (Text.trim_trim b) hb
  rw [hwhole, Text.trim_of_isBlank_append hl, Text.trim_append_of_isBlank hr]
  rw [between_eq_append]
  generalize behind ++ left ++ mark ++ (right ++ before) = middle
  refine Text.trim_eq_self ⟨c, rest ++ middle ++ Text.trim b, by rw [hcons]; rfl, hc⟩
    ⟨Text.trim a ++ middle ++ init, d, ?_, hd⟩
  rw [hconcat, List.append_assoc (Text.trim a ++ middle)]

/-- Two groups of types may each be joined first. -/
theorem unionOf_append {types types' : List ApiType} (hne : types ≠ []) (hne' : types' ≠ [])
    (h : ∀ t ∈ types, t.Canonical) (h' : ∀ t ∈ types', t.Canonical) :
    ApiType.unionOf (types ++ types') = .unionOf [.unionOf types, .unionOf types'] := by
  have hgroups := ApiType.unionOf_map_unionOf
    (List.forall_mem_cons.2 ⟨⟨hne, h⟩, List.forall_mem_singleton.2 ⟨hne', h'⟩⟩)
  rw [List.flatten_cons, List.flatten_singleton] at hgroups
  exact hgroups.symm

/-- The alternatives of both sides together have the union of both types. -/
theorem unionOf_sides {a b : List Char} {ta tb : ApiType} (ha : Side a ta) (hb : Side b tb)
    (members : List (List Char)) :
    (Shape.either members).type?
        ((alternatives (Text.trim a) ++ alternatives (Text.trim b)).filterMap parseType)
      = some (.unionOf [ta, tb]) := by
  obtain ⟨hfirst, hta⟩ := ha.unionOf_alternatives
  obtain ⟨hsecond, htb⟩ := hb.unionOf_alternatives
  have hcanonical : ∀ texts : List (List Char), ∀ t ∈ texts.filterMap parseType, t.Canonical := by
    intro texts t ht
    obtain ⟨text, -, hread⟩ := List.mem_filterMap.1 ht
    exact (sound_parseType text t hread).canonical
  have hunion := unionOf_append hfirst hsecond (hcanonical _) (hcanonical _)
  rw [hta, htb] at hunion
  rw [List.filterMap_append, ← hunion]
  cases hmembers : (alternatives (Text.trim a)).filterMap parseType with
  | nil => exact absurd hmembers hfirst
  | cons first more => rfl

section Joined

variable {a b mark left right : List Char} {ta tb : ApiType} (ha : Side a ta) (hb : Side b tb)
  (hmark : mark = orWord ∨ mark = ['|']) (hleft : Text.IsBlank left) (hright : Text.IsBlank right)
  (hend : ¬ [' ', 'o', 'r'] <:+ Text.trim a) (hstart : ¬ ['o', 'r', ' '] <+: Text.trim b)

include ha hb hmark hleft hright hend hstart

theorem trim_joined :
    (IsBraced (Text.trim (between a left mark right b))
        ↔ IsBraced (Text.trim a ++ Text.trim b))
      ∧ alternatives (Text.trim (between a left mark right b))
        = alternatives (Text.trim a) ++ alternatives (Text.trim b) := by
  obtain ⟨behind, before, hbehind, hbefore, htrim⟩ :=
    trim_between left mark right ha.trim_ne_nil hb.trim_ne_nil
  rw [htrim]
  constructor
  · have hrest : behind ++ left ++ mark ++ (right ++ before) ++ Text.trim b ≠ [] := by
      simp [hb.trim_ne_nil]
    rw [between_eq_append, List.append_assoc, isBraced_append ha.trim_ne_nil hrest,
      isBraced_append ha.trim_ne_nil hb.trim_ne_nil,
      List.getLast?_append_of_ne_nil _ hb.trim_ne_nil]
  · exact alternatives_joined hmark (List.forall_mem_append.2 ⟨hbehind, hleft⟩)
      (List.forall_mem_append.2 ⟨hright, hbefore⟩) ha.unadorned.trim.unquoted
      hb.unadorned.trim.unquoted ha.rise_trim hend hstart

/-- The whole is taken for a value set if the first side begins and the last ends like one. -/
theorem shape_between :
    shape (between a left mark right b)
      = if IsBraced (Text.trim a ++ Text.trim b) then
          .values (valuesIn (Text.trim (between a left mark right b)).tail.dropLast)
        else .either (alternatives (Text.trim a) ++ alternatives (Text.trim b)) := by
  obtain ⟨hbraced, halternatives⟩ := trim_joined ha hb hmark hleft hright hend hstart
  have hunadorned : Unadorned (between a left mark right b) := by
    have hmark' : Unadorned mark := by rcases hmark with rfl | rfl <;> decide
    exact (ha.unadorned.append (unadorned_of_isBlank hleft)).append
      (hmark'.append ((unadorned_of_isBlank hright).append hb.unadorned))
  have hmany : 1 < (alternatives (Text.trim (between a left mark right b))).length := by
    have hfirst := ha.length_alternatives_pos
    have hsecond := hb.length_alternatives_pos
    rw [halternatives, List.length_append]
    omega
  have hne : Text.trim (between a left mark right b) ≠ [] := by
    intro hnone
    rw [hnone] at hmany
    exact absurd hmany (by decide)
  have hshape : shape (between a left mark right b)
      = shapeOf (Text.trim (between a left mark right b)) := by
    rw [shape, hunadorned.strip_eq]
    cases hcons : Text.trim (between a left mark right b) with
    | nil => exact absurd hcons hne
    | cons c rest => rfl
  rw [hshape]
  split
  next hends => exact shapeOf_of_isBraced (hbraced.2 hends)
  next hends =>
    rw [shapeOf_of_many (fun h => hends (hbraced.1 h)) hmany, halternatives]

theorem parseType_between :
    parseType (between a left mark right b)
      = if IsBraced (Text.trim a ++ Text.trim b) then
          some (.enumOf (valuesIn (Text.trim (between a left mark right b)).tail.dropLast))
        else some (.unionOf [ta, tb]) := by
  rw [parseType_eq, shape_between ha hb hmark hleft hright hend hstart]
  split
  next => rfl
  next => exact unionOf_sides ha hb _

omit hmark hleft hright in
theorem parseType_or :
    parseType (a ++ " or ".toList ++ b)
      = if IsBraced (Text.trim a ++ Text.trim b) then
          some (.enumOf (valuesIn (Text.trim (a ++ " or ".toList ++ b)).tail.dropLast))
        else some (.unionOf [ta, tb]) := by
  have htext : between a [] orWord [] b = a ++ " or ".toList ++ b := by
    simp [between, orWord]
  rw [← htext]
  exact parseType_between ha hb (.inl rfl) Text.isBlank_nil Text.isBlank_nil hend hstart

omit hmark hleft hright in
theorem parseType_bar :
    parseType (a ++ " | ".toList ++ b)
      = if IsBraced (Text.trim a ++ Text.trim b) then
          some (.enumOf (valuesIn (Text.trim (a ++ " | ".toList ++ b)).tail.dropLast))
        else some (.unionOf [ta, tb]) := by
  have htext : between a [' '] ['|'] [' '] b = a ++ " | ".toList ++ b := by
    simp [between]
  have hblank : Text.IsBlank [' '] := List.forall_mem_singleton.2 rfl
  rw [← htext]
  exact parseType_between ha hb (.inr rfl) hblank hblank hend hstart

end Joined

/-- A canonical type whose members are all the same type, itself no union, is that type. -/
theorem eq_of_unionMembers {u v : ApiType} (hu : u.Canonical) (hv : v.Canonical)
    (hunion : v.isUnion = false) (h : ∀ w ∈ u.unionMembers, w = v) : u = v := by
  obtain ⟨w, hw⟩ := List.exists_mem_of_ne_nil _ (ApiType.unionMembers_ne_nil hu.sound)
  have hmembers : ∀ x,
      x ∈ [u].flatMap ApiType.unionMembers ↔ x ∈ [v].flatMap ApiType.unionMembers := by
    intro x
    rw [List.flatMap_singleton, List.flatMap_singleton,
      ApiType.unionMembers_of_isUnion_eq_false hunion, List.mem_singleton]
    exact ⟨h x, fun hx => by rwa [hx, ← h w hw]⟩
  calc u = .unionOf [u] := (ApiType.unionOf_singleton (hu u (.whole u))).symm
    _ = .unionOf [v] := ApiType.unionOf_congr_members hmembers
    _ = v := ApiType.unionOf_singleton (hv v (.whole v))

/-- A value set is no union of two different types. -/
theorem enumOf_ne_unionOf {ta tb : ApiType} (values : List String) (ha : ta.Canonical)
    (hb : tb.Canonical) (hne : ta ≠ tb) : ApiType.enumOf values ≠ .unionOf [ta, tb] := by
  intro heq
  have hcanonical : ∀ t ∈ [ta, tb], t.Canonical := by simp [ha, hb]
  have henum : (ApiType.enumOf values).Canonical := by
    rw [heq]
    exact (ApiType.sound_unionOf fun t ht => (hcanonical t ht).sound).canonical
  have hsame : ∀ t ∈ [ta, tb], t = .enumOf values := by
    intro t ht
    refine eq_of_unionMembers (hcanonical t ht) henum rfl fun w hw => ?_
    have hmem := (ApiType.mem_unionMembers_unionOf (fun t ht => (hcanonical t ht).sound)
      (List.cons_ne_nil ta [tb])).2 (List.mem_flatMap.2 ⟨t, ht, hw⟩)
    rw [← heq] at hmem
    exact List.mem_singleton.1 hmem
  exact hne ((hsame ta (by simp)).trans (hsame tb (by simp)).symm)

/-- **Joined types are read as their union, unless the whole looks like a value set.**  Two sides
with the word `or` or a bar between them are read as the union of their types, if the first does not
begin or the second does not end like a value set.  Otherwise the whole is read as a single value
set, which is never the union if the two types differ.  The first side must not end with the word
`or` and the second must not begin with it. -/
theorem joined_types_read {a b : List Char} {ta tb : ApiType} (ha : Side a ta) (hb : Side b tb)
    (hend : ¬ [' ', 'o', 'r'] <:+ Text.trim a) (hstart : ¬ ['o', 'r', ' '] <+: Text.trim b) :
    (¬ IsBraced (Text.trim a ++ Text.trim b) →
        parseType (a ++ " or ".toList ++ b) = some (.unionOf [ta, tb])
          ∧ parseType (a ++ " | ".toList ++ b) = some (.unionOf [ta, tb]))
      ∧ (IsBraced (Text.trim a ++ Text.trim b) →
        ∀ mark ∈ [" or ".toList, " | ".toList],
          (∃ values, parseType (a ++ mark ++ b) = some (.enumOf values))
            ∧ (ta ≠ tb → parseType (a ++ mark ++ b) ≠ some (.unionOf [ta, tb]))) := by
  have hor := parseType_or ha hb hend hstart
  have hbar := parseType_bar ha hb hend hstart
  refine ⟨fun hbraced => ?_, fun hbraced => ?_⟩
  · rw [if_neg hbraced] at hor hbar
    exact ⟨hor, hbar⟩
  · rw [if_pos hbraced] at hor hbar
    have hdiffer : ∀ values, ta ≠ tb → some (ApiType.enumOf values) ≠ some (.unionOf [ta, tb]) :=
      fun values hne heq =>
        enumOf_ne_unionOf values ha.canonical hb.canonical hne (Option.some.inj heq)
    rw [List.forall_mem_cons, List.forall_mem_singleton, hor, hbar]
    exact ⟨⟨⟨_, rfl⟩, hdiffer _⟩, ⟨_, rfl⟩, hdiffer _⟩

namespace Sample

/-- A value set beside an optional type. -/
theorem letters_or_optional_read :
    parseType "\x7ba, b\x7d or int | None".toList
        = some (.union [ApiType.none, .builtin "int", .enumOf ["a", "b"]])
      ∧ parseType "\x7ba, b\x7d | int | None".toList
        = some (.union [ApiType.none, .builtin "int", .enumOf ["a", "b"]]) := by
  have hletters : Side "\x7ba, b\x7d".toList (.enumOf ["a", "b"]) := by decide +kernel
  have hoptional : Side "int | None".toList (.union [ApiType.none, .builtin "int"]) := by
    decide +kernel
  have hread := (joined_types_read hletters hoptional (by decide +kernel) (by decide +kernel)).1
    (by decide +kernel)
  have hunion : ApiType.unionOf [.enumOf ["a", "b"], .union [ApiType.none, .builtin "int"]]
      = .union [ApiType.none, .builtin "int", .enumOf ["a", "b"]] := by decide +kernel
  rwa [hunion] at hread

/-- Two value sets are taken for one, also where they are themselves a side of a longer text.  A
side that ends or begins with the word `or` is read otherwise beside another than alone. -/
theorem value_sets_taken_for_one :
    (Side "\x7ba\x7d".toList (.enumOf ["a"]) ∧ Side "\x7bb\x7d".toList (.enumOf ["b"])
      ∧ parseType "\x7ba\x7d or \x7bb\x7d".toList = some (.enumOf ["a\x7d or \x7bb"])
      ∧ parseType "\x7ba\x7d or \x7bb\x7d or int".toList
        = some (.union [.builtin "int", .enumOf ["a"], .enumOf ["b"]]))
    ∧ (Side "x or".toList (.named "x or" "x or") ∧ Side "or y".toList (.named "or y" "or y")
      ∧ parseType "x or or y".toList = some (.union [.named "or y" "or y", .named "x" "x"])
      ∧ parseType "x | or y".toList = some (.union [.named "x" "x", .named "y" "y"])) := by
  decide +kernel

end Sample

end ApiSurface.TypeText
