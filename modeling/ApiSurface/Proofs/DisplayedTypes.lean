import ApiSurface.ApiType.Display
import ApiSurface.Proofs.BracketDepth
import ApiSurface.Proofs.TypeAlternatives
/-!
# Displayed types are read back

The text that a type is displayed with is one of the texts that prose may give, so it can be read as
one.  For types made of builtin names and the usual containers that gives the type itself, at any
depth (`parseType_display`).

What makes the reader find the parts again is that displayed text is balanced and that nothing by
which it would be cut stands outside brackets: no comma at all (`Wording`), and where the type is no
union no blank and no bar either (`Undivided`).  This goes through the structure of types, with one
lemma for names, one for what stands in brackets behind a name, and one for a member put in front of
others.
-/

namespace ApiSurface

namespace ApiType

/-! ## 1. Types that prose can name -/

/-- The builtin names that are understood in prose, and `None`. -/
def commonNames : List String :=
  ["int", "float", "str", "bool", "bytes", "complex", "object", "list", "dict", "set", "tuple",
    "None"]

/-- Whether the outermost form of a type is one that prose can name: a builtin, or a container. -/
def isCommon : ApiType → Bool
  | .named name qname => commonNames.contains name && qname == "builtins." ++ name
  | .list types | .set types => types.length ≤ 1
  | .tuple _ | .union _ | .dict .. => true
  | .unknown | .namedSequence .. | .enum _ | .boundary _ | .callable .. | .literal _ | .final _
  | .typeVar .. => false

theorem sizeOf_lt_of_mem_parts {p t : ApiType} (h : p ∈ t.parts) : sizeOf p < sizeOf t := by
  cases t with
  | namedSequence _ _ types | list types | set types | tuple types | union types =>
    have hlt : sizeOf p < sizeOf types := List.sizeOf_lt_of_mem h
    simp only [namedSequence.sizeOf_spec, list.sizeOf_spec, set.sizeOf_spec, tuple.sizeOf_spec,
      union.sizeOf_spec]
    omega
  | dict k v =>
    obtain rfl | rfl : p = k ∨ p = v := by simpa [parts] using h
    all_goals
      rw [dict.sizeOf_spec]
      omega
  | callable parameters result =>
    rw [callable.sizeOf_spec]
    rcases List.mem_append.1 h with hp | hp
    · have hlt : sizeOf p < sizeOf parameters := List.sizeOf_lt_of_mem hp
      omega
    · rw [List.mem_singleton.1 hp]
      omega
  | final inner =>
    rw [List.mem_singleton.1 h, final.sizeOf_spec]
    omega
  | typeVar name bound =>
    obtain rfl : bound = some p := Option.mem_toList.1 h
    rw [typeVar.sizeOf_spec, Option.some.sizeOf_spec]
    omega
  | unknown | named | enum | boundary | literal => cases h

instance decidableProper (p : ApiType → Prop) [DecidablePred p] (t : ApiType) :
    Decidable (Proper p t) :=
  have (q : {q // q ∈ t.parts}) : Decidable (Proper p q.1) := decidableProper p q.1
  have hiff : (t.IsTidy ∧ p t) ∧ (∀ q ∈ t.parts.attach, Proper p q.1) ↔ Proper p t := by
    rw [proper_iff]
    simp
  decidable_of_iff _ hiff
termination_by sizeOf t
decreasing_by exact sizeOf_lt_of_mem_parts q.2

/-- Induction over what a type is made of. -/
theorem parts_induction {motive : ApiType → Prop}
    (step : ∀ t, (∀ p ∈ t.parts, motive p) → motive t) (t : ApiType) : motive t := by
  induction hn : sizeOf t using Nat.strongRecOn generalizing t with
  | ind n ih => exact step t fun p hp => ih _ (hn ▸ sizeOf_lt_of_mem_parts hp) p rfl

end ApiType

namespace TypeText

variable {c : Char} {s t : List Char}

/-! ## 2. Balanced brackets -/

/-- That brackets are closed at the end of a text and none is closed that was not opened. -/
def Balanced (t : List Char) : Prop := rise t = 0 ∧ ∀ s, s <+: t → 0 ≤ rise s

theorem balanced_of_level (h : ∀ c ∈ t, nesting c = 0) : Balanced t := by
  refine ⟨rise_eq_zero h, fun s hs => ?_⟩
  rw [rise_eq_zero fun c hc => h c (hs.subset hc)]

theorem Balanced.append (hs : Balanced s) (ht : Balanced t) : Balanced (s ++ t) := by
  refine ⟨by rw [rise_append, hs.1, ht.1, Int.add_zero], ?_⟩
  rintro u ⟨rest, heq⟩
  rcases List.append_eq_append_iff.1 heq with ⟨mid, hmid, -⟩ | ⟨mid, hmid, hrest⟩
  · exact hs.2 u ⟨mid, hmid.symm⟩
  · rw [hmid, rise_append, hs.1, Int.zero_add]
    exact ht.2 mid ⟨rest, hrest.symm⟩

/-- A text in square brackets. -/
def inBrackets (t : List Char) : List Char := '[' :: (t ++ [']'])

theorem rise_open (t : List Char) : rise ('[' :: t) = 1 + rise t := rfl

theorem rise_inBrackets (t : List Char) : rise (inBrackets t) = rise t := by
  rw [inBrackets, rise_open, rise_append, show rise [']'] = -1 from rfl]
  omega

theorem Balanced.inBrackets (h : Balanced t) : Balanced (inBrackets t) := by
  refine ⟨(rise_inBrackets t).trans h.1, fun s hs => ?_⟩
  rcases List.prefix_cons_iff.1 hs with rfl | ⟨inner, rfl, hinner⟩
  · exact le_rfl
  rw [rise_open]
  rcases List.prefix_concat_iff.1 hinner with rfl | hinside
  · rw [rise_append, h.1]
    exact le_rfl
  · have hdepth := h.2 inner hinside
    omega

/-- Inside the brackets around a balanced text one is never outside all brackets, nor does the
counter take so many of them for none. -/
theorem Balanced.shelters_inBrackets (h : Balanced t) (hunquoted : Unquoted t)
    (hshort : (TypeText.inBrackets t).length < 2 ^ 32) (hc : c ≠ '[') :
    Shelters (TypeText.inBrackets t) c := by
  rw [← onlyInside_iff_shelters hshort]
  intro before after heq
  rcases List.prefix_cons_iff.1 ⟨c :: after, heq.symm⟩ with rfl | ⟨before, rfl, hbefore⟩
  · exact absurd (List.cons.inj heq).1.symm hc
  have hinside : before <+: t := by
    rcases List.prefix_concat_iff.1 hbefore with rfl | hinside
    · have hlength := congrArg List.length heq
      simp [TypeText.inBrackets] at hlength
    · exact hinside
  have hdepth := h.2 before hinside
  have hunquoted' : Unquoted ('[' :: before) :=
    List.forall_mem_cons.2 ⟨rfl, fun d hd => hunquoted d (hinside.subset hd)⟩
  rintro ⟨shown, hshown, hcount⟩
  have hrise := rise_eq_countP ('[' :: before)
  rw [hshown.eq_of_unquoted hunquoted'] at hcount
  rw [hcount, Int.sub_self, rise_open] at hrise
  omega

/-! ## 3. The wording of displayed types -/

/-- What the displayed text of a type is like: balanced and without commas outside brackets.  It
begins with one of the common names. -/
structure Wording (text : List Char) : Prop where
  unadorned : Unadorned text
  balanced : Balanced text
  commas : Shelters text ','
  opens : ∃ name ∈ ApiType.commonNames, name.toList <+: text
  closes : ∃ init c, text = init ++ [c] ∧ Text.isBlank c = false ∧ c ≠ '|'

namespace Wording

variable {text : List Char} (h : Wording text)

include h

theorem exists_cons :
    ∃ c rest, text = c :: rest ∧ Text.isBlank c = false ∧ c ≠ '|' ∧ c ≠ '\x7b' := by
  obtain ⟨name, hname, rest, rfl⟩ := h.opens
  have hfirst : ∀ name ∈ ApiType.commonNames, (name.toList.head?.any fun c =>
      decide (Text.isBlank c = false ∧ c ≠ '|' ∧ c ≠ '\x7b')) = true := by
    decide +kernel
  obtain ⟨c, hc, hkind⟩ := (Option.any_eq_true _ _).1 (hfirst name hname)
  obtain ⟨more, heq⟩ := List.head?_eq_some_iff.1 hc
  exact ⟨c, more ++ rest, by rw [heq]; rfl, of_decide_eq_true hkind⟩

theorem ne_nil : text ≠ [] := by
  obtain ⟨c, rest, heq, -⟩ := h.exists_cons
  simp [heq]

theorem trim_eq : Text.trim text = text := by
  obtain ⟨c, rest, hcons, hc, -⟩ := h.exists_cons
  obtain ⟨init, d, hconcat, hd, -⟩ := h.closes
  exact Text.trim_eq_self ⟨c, rest, hcons, hc⟩ ⟨init, d, hconcat, hd⟩

theorem closed : Closed text := closed_of_unquoted h.unadorned.unquoted h.balanced.1

theorem head?_ne : text.head? ≠ some '\x7b' := by
  obtain ⟨c, rest, hcons, -, -, hc⟩ := h.exists_cons
  rw [hcons, List.head?_cons, Ne, Option.some.injEq]
  exact hc

theorem not_isBraced : ¬ IsBraced text := fun hbraced => h.head?_ne hbraced.1

/-- None of the names begins with the word `or`. -/
theorem not_or_first : ¬ ['o', 'r', ' '] <+: text := by
  intro hor
  obtain ⟨name, hname, hprefix⟩ := h.opens
  have hnames : ∀ name ∈ ApiType.commonNames,
      ¬ name.toList <+: ['o', 'r', ' '] ∧ ¬ ['o', 'r', ' '] <+: name.toList := by
    decide +kernel
  rcases List.prefix_or_prefix_of_prefix hprefix hor with hshorter | hlonger
  · exact (hnames name hname).1 hshorter
  · exact (hnames name hname).2 hlonger

theorem side {type : ApiType} (hread : parseType text = some type) : Side text type where
  unadorned := h.unadorned
  balanced := h.balanced.1
  read := hread
  not_bar_first := by
    obtain ⟨c, rest, hcons, -, hc, -⟩ := h.exists_cons
    rw [h.trim_eq, hcons, List.cons_prefix_cons]
    exact fun hbar => hc hbar.1.symm
  not_bar_last := by
    obtain ⟨init, d, hconcat, -, hd⟩ := h.closes
    rw [h.trim_eq]
    rintro ⟨before, heq⟩
    have hlast := congrArg List.getLast? (heq.trans hconcat)
    rw [List.getLast?_concat, List.getLast?_concat] at hlast
    exact hd (Option.some.inj hlast).symm
  not_mistaken := fun hbraced => absurd (h.trim_eq ▸ hbraced) h.not_isBraced

end Wording

/-- What the text of a type is like that is not a union: there are no bars and blanks outside
brackets either. -/
structure Undivided (text : List Char) : Prop extends Wording text where
  bars : Shelters text '|'
  blanks : Shelters text ' '

theorem Shelters.counter_ne_zero {before after : List Char} (h : Shelters t c)
    (hunquoted : Unquoted t) (heq : t = before ++ c :: after) :
    0 + Int32.ofInt (rise before) ≠ 0 := by
  intro hzero
  have hbefore : Unquoted before := fun d hd => hunquoted d (by simp [heq, hd])
  have houter := h before after heq
  rw [after_of_unquoted hbefore 0, hzero] at houter
  cases houter

namespace Undivided

variable {text : List Char} (h : Undivided text)

include h

theorem alternatives_eq_self : alternatives text = [text] := by
  have hcuts : cuts 0 text = [text] := by
    refine cuts_eq_singleton fun before after heq hzero => ?_
    rintro (⟨rest, rfl⟩ | ⟨rest, rfl⟩)
    · exact h.blanks.counter_ne_zero h.unadorned.unquoted heq hzero
    · exact h.bars.counter_ne_zero h.unadorned.unquoted heq hzero
  rw [alternatives_eq h.unadorned.unquoted, hcuts, List.map_singleton, h.trim_eq]
  simp [h.ne_nil]

theorem not_or_last : ¬ [' ', 'o', 'r'] <:+ text := by
  rintro ⟨before, heq⟩
  have hrise : rise before + rise [' ', 'o', 'r'] = 0 := by
    rw [← rise_append, heq, h.balanced.1]
  rw [show rise [' ', 'o', 'r'] = 0 from rfl, Int.add_zero] at hrise
  exact h.blanks.counter_ne_zero h.unadorned.unquoted heq.symm (by rw [hrise]; rfl)

end Undivided

/-! ## 4. Names -/

/-- That a character is none of those by which the text of a type is taken apart. -/
def IsOrdinary (c : Char) : Prop :=
  (isQuote c = false ∧ c ≠ '\x60' ∧ c ≠ '~') ∧ nesting c = 0 ∧ Text.isBlank c = false
    ∧ c ≠ ',' ∧ c ≠ '|' ∧ c ≠ ' '

instance : DecidablePred IsOrdinary := fun _ => inferInstanceAs (Decidable (_ ∧ _ ∧ _ ∧ _ ∧ _))

theorem ordinary_of_mem_commonNames {name : String} (h : name ∈ ApiType.commonNames) :
    name.toList ≠ [] ∧ ∀ c ∈ name.toList, IsOrdinary c := by
  have hnames : ∀ name ∈ ApiType.commonNames,
      name.toList ≠ [] ∧ name.toList.all (fun c => decide (IsOrdinary c)) = true := by
    decide +kernel
  obtain ⟨hne, hall⟩ := hnames name h
  exact ⟨hne, fun c hc => of_decide_eq_true (List.all_eq_true.1 hall c hc)⟩

theorem undivided_name {name : String} (h : name ∈ ApiType.commonNames) :
    Undivided name.toList := by
  obtain ⟨hne, hordinary⟩ := ordinary_of_mem_commonNames h
  have hsheltered : ∀ c, ¬ IsOrdinary c → Shelters name.toList c := fun c hc =>
    shelters_of_not_mem fun hmem => hc (hordinary c hmem)
  obtain hnil | ⟨init, last, hlast⟩ := List.eq_nil_or_concat' name.toList
  · exact absurd hnil hne
  have hkind : IsOrdinary last := hordinary last (by simp [hlast])
  exact {
    unadorned := fun c hc => (hordinary c hc).1
    balanced := balanced_of_level fun c hc => (hordinary c hc).2.1
    commas := hsheltered ',' (by decide)
    opens := ⟨name, h, List.prefix_rfl⟩
    closes := ⟨init, last, hlast, hkind.2.2.1, hkind.2.2.2.2.1⟩
    bars := hsheltered '|' (by decide)
    blanks := hsheltered ' ' (by decide) }

theorem parseType_name {name : String} (h : name ∈ ApiType.commonNames) :
    parseType name.toList = some (.builtin name) := by
  have hread : ∀ name ∈ ApiType.commonNames, parseType name.toList = some (.builtin name) := by
    decide +kernel
  exact hread name h

/-! ## 5. Names with arguments -/

/-- The names that are displayed with arguments. -/
def containerNames : List String := ["list", "set", "tuple", "dict"]

section Applied

variable {name : String} {inner : List Char} (hname : name ∈ containerNames)
  (hbalanced : Balanced inner) (hunadorned : Unadorned inner)
  (hshort : (inBrackets inner).length < 2 ^ 32)

include hname in
theorem mem_commonNames : name ∈ ApiType.commonNames := by
  revert name
  decide

include hname hbalanced hunadorned hshort in
theorem undivided_applied : Undivided (name.toList ++ inBrackets inner) := by
  have hhead := undivided_name (mem_commonNames hname)
  have hbrackets : Unadorned (inBrackets inner) :=
    List.forall_mem_cons.2 ⟨by decide, hunadorned.append (by decide)⟩
  have hsheltered : ∀ c, c ≠ '[' → Shelters (inBrackets inner) c := fun c hc =>
    hbalanced.shelters_inBrackets hunadorned.unquoted hshort hc
  exact {
    unadorned := hhead.unadorned.append hbrackets
    balanced := hhead.balanced.append hbalanced.inBrackets
    commas := hhead.commas.append hhead.closed (hsheltered ',' (by decide))
    opens := ⟨name, mem_commonNames hname, List.prefix_append _ _⟩
    closes := ⟨name.toList ++ '[' :: inner, ']', by simp [inBrackets], by decide, by decide⟩
    bars := hhead.bars.append hhead.closed (hsheltered '|' (by decide))
    blanks := hhead.blanks.append hhead.closed (hsheltered ' ' (by decide)) }

theorem bracketed?_append {head : List Char} (inner : List Char) (hopen : '[' ∉ head)
    (htrim : Text.trim head = head) :
    bracketed? (head ++ inBrackets inner) = some (head, inner) := by
  have hkept : ∀ c ∈ head, (c != '[') = true := by
    intro c hc
    rw [bne_iff_ne]
    rintro rfl
    exact hopen hc
  have hdrop : (head ++ inBrackets inner).dropWhile (· != '[') = '[' :: (inner ++ [']']) := by
    rw [List.dropWhile_append_of_pos hkept]
    rfl
  have htake : (head ++ inBrackets inner).takeWhile (· != '[') = head := by
    rw [List.takeWhile_append_of_pos hkept, inBrackets, List.takeWhile_cons_of_neg (by decide),
      List.append_nil]
  rw [bracketed?, hdrop, htake, htrim]
  simp

include hname in
/-- The words of containers have a blank where the bracket stands. -/
theorem container?_applied : container? (name.toList ++ inBrackets inner) = none := by
  simp only [containerNames, List.mem_cons, List.not_mem_nil, or_false] at hname
  rcases hname with rfl | rfl | rfl | rfl <;> rfl

include hname hbalanced hunadorned hshort in
theorem shape_applied :
    shape (name.toList ++ inBrackets inner) = .applied name.toList (split ',' inner) := by
  have hwording := undivided_applied hname hbalanced hunadorned hshort
  have hhead := undivided_name (mem_commonNames hname)
  have hone : ¬ 1 < (alternatives (name.toList ++ inBrackets inner)).length := by
    rw [hwording.alternatives_eq_self]
    simp
  have hbraces : ¬ ((name.toList ++ inBrackets inner).head? = some '\x7b'
      ∧ (name.toList ++ inBrackets inner).getLast? = some '\x7d') := hwording.not_isBraced
  have hopen : '[' ∉ name.toList := fun hmem => by
    have hlevel := ((ordinary_of_mem_commonNames (mem_commonNames hname)).2 _ hmem).2.1
    exact absurd hlevel (by decide)
  rw [hwording.unadorned.shape_eq hwording.trim_eq hwording.ne_nil, shapeOf, if_neg hbraces,
    if_neg hone, container?_applied hname, bracketed?_append inner hopen hhead.trim_eq]

include hname hbalanced hunadorned hshort in
theorem parseType_applied :
    parseType (name.toList ++ inBrackets inner)
      = some (subscripted name.toList ((split ',' inner).filterMap parseType)) := by
  rw [parseType_eq, shape_applied hname hbalanced hunadorned hshort]
  rfl

end Applied

/-! ## 6. Arguments and alternatives -/

/-- That a type is read back from its displayed text. -/
structure ReadsBack (t : ApiType) : Prop where
  wording : Wording t.display.toList
  undivided : t.isUnion = false → Undivided t.display.toList
  read : parseType t.display.toList = some t

theorem toList_displayList_cons (sep : String) (t next : ApiType) (more : List ApiType) :
    (ApiType.displayList sep (t :: next :: more)).toList
      = t.display.toList ++ sep.toList ++ (ApiType.displayList sep (next :: more)).toList := by
  rw [ApiType.displayList, String.toList_append, String.toList_append]
  simp

theorem toList_displayList (sep : String) (types : List ApiType) :
    (ApiType.displayList sep types).toList
      = Text.joinWith sep.toList (types.map fun t => t.display.toList) := by
  induction types with
  | nil => rfl
  | cons t types ih =>
    cases types with
    | nil => rfl
    | cons next more =>
      rw [toList_displayList_cons, ih]
      rfl

variable {types : List ApiType}

theorem balanced_arguments (h : ∀ t ∈ types, ReadsBack t) :
    Balanced (ApiType.displayList ", " types).toList
      ∧ Unadorned (ApiType.displayList ", " types).toList := by
  induction types with
  | nil => exact ⟨balanced_of_level (List.forall_mem_nil _), List.forall_mem_nil _⟩
  | cons t types ih =>
    obtain ⟨ht, hmore⟩ := List.forall_mem_cons.1 h
    cases types with
    | nil => exact ⟨ht.wording.balanced, ht.wording.unadorned⟩
    | cons next more =>
      obtain ⟨hbalanced, hunadorned⟩ := ih hmore
      have hgap : Balanced ", ".toList :=
        balanced_of_level (List.forall_mem_cons.2 ⟨rfl, List.forall_mem_singleton.2 rfl⟩)
      rw [toList_displayList_cons]
      exact ⟨(ht.wording.balanced.append hgap).append hbalanced,
        (ht.wording.unadorned.append (by decide)).append hunadorned⟩

/-- The texts between commas are read one by one. -/
theorem read_arguments (h : ∀ t ∈ types, ReadsBack t) :
    (split ',' (ApiType.displayList ", " types).toList).filterMap parseType = types := by
  rw [toList_displayList]
  cases types with
  | nil => decide +kernel
  | cons t more =>
    obtain ⟨ht, hmore⟩ := List.forall_mem_cons.1 h
    have hpieces : ∀ piece ∈ more.map fun t => t.display.toList,
        Closed piece ∧ Shelters piece ',' := by
      simp only [List.forall_mem_map]
      exact fun u hu => ⟨(hmore u hu).wording.closed, (hmore u hu).wording.commas⟩
    have hsplit : split ',' (Text.joinWith ", ".toList ((t :: more).map fun t => t.display.toList))
        = t.display.toList :: (more.map fun t => t.display.toList).map ([' '] ++ ·) :=
      split_joinWith (by decide) (by decide) ⟨ht.wording.closed, ht.wording.commas⟩ hpieces
    have hrest : ∀ u ∈ more, parseType ([' '] ++ u.display.toList) = some u := by
      intro u hu
      have hunadorned : Unadorned ([' '] ++ u.display.toList) :=
        (show Unadorned [' '] by decide).append (hmore u hu).wording.unadorned
      rw [← hunadorned.parseType_trim, Text.trim_of_isBlank_append (by decide),
        (hmore u hu).wording.trim_eq, (hmore u hu).read]
    have hmembers : ((more.map fun t => t.display.toList).map ([' '] ++ ·)).filterMap parseType
        = more := by
      rw [List.map_map, List.filterMap_map]
      exact (List.filterMap_congr hrest).trans List.filterMap_some
    rw [hsplit, List.filterMap_cons, ht.read, hmembers]

theorem wording_beside {a b : List Char} (ha : Wording a) (hb : Wording b) :
    Wording (a ++ " | ".toList ++ b) := by
  have hbar : Balanced " | ".toList := balanced_of_level
    (List.forall_mem_cons.2 ⟨rfl, List.forall_mem_cons.2 ⟨rfl, List.forall_mem_singleton.2 rfl⟩⟩)
  have hcommas : Shelters (a ++ " | ".toList) ',' := ha.commas.append ha.closed (by decide)
  have hclosed : Closed (a ++ " | ".toList) := ha.closed.append (by decide)
  obtain ⟨name, hname, hprefix⟩ := ha.opens
  obtain ⟨init, c, hconcat, hlast⟩ := hb.closes
  exact {
    unadorned := (ha.unadorned.append (by decide)).append hb.unadorned
    balanced := (ha.balanced.append hbar).append hb.balanced
    commas := hcommas.append hclosed hb.commas
    opens := ⟨name, hname, by
      rw [List.append_assoc]
      exact hprefix.trans (List.prefix_append _ _)⟩
    closes := ⟨a ++ " | ".toList ++ init, c, by simp [hconcat], hlast⟩ }

/-- The texts between bars are read as a union, each as one alternative. -/
theorem read_alternatives (hne : types ≠ []) (h : ∀ t ∈ types, ReadsBack t)
    (hflat : ∀ t ∈ types, t.isUnion = false) :
    Wording (ApiType.displayList " | " types).toList
      ∧ parseType (ApiType.displayList " | " types).toList = some (.unionOf types) := by
  induction types with
  | nil => exact absurd rfl hne
  | cons t types ih =>
    obtain ⟨ht, hmore⟩ := List.forall_mem_cons.1 h
    obtain ⟨hunion, hflat⟩ := List.forall_mem_cons.1 hflat
    have hcanonical : ∀ u, ReadsBack u → u.Canonical := fun u hu =>
      (sound_parseType _ _ hu.read).canonical
    cases types with
    | nil =>
      refine ⟨ht.wording, ?_⟩
      rw [ApiType.unionOf_singleton (hcanonical t ht t (.whole t))]
      exact ht.read
    | cons next more =>
      obtain ⟨hwording, hread⟩ := ih (by simp) hmore hflat
      have hbraced : ¬ IsBraced (Text.trim t.display.toList
          ++ Text.trim (ApiType.displayList " | " (next :: more)).toList) := by
        rw [ht.wording.trim_eq, hwording.trim_eq, isBraced_append ht.wording.ne_nil hwording.ne_nil]
        exact fun hbraced => ht.wording.head?_ne hbraced.1
      have hend : ¬ [' ', 'o', 'r'] <:+ Text.trim t.display.toList := by
        rw [ht.wording.trim_eq]
        exact (ht.undivided hunion).not_or_last
      have hstart : ¬ ['o', 'r', ' ']
          <+: Text.trim (ApiType.displayList " | " (next :: more)).toList := by
        rw [hwording.trim_eq]
        exact hwording.not_or_first
      have hunionOf := unionOf_append (List.cons_ne_nil t []) (List.cons_ne_nil next more)
        (List.forall_mem_singleton.2 (hcanonical t ht)) fun u hu => hcanonical u (hmore u hu)
      rw [List.singleton_append,
        ApiType.unionOf_singleton (hcanonical t ht t (.whole t))] at hunionOf
      rw [toList_displayList_cons]
      refine ⟨wording_beside ht.wording hwording, ?_⟩
      rw [parseType_bar (ht.wording.side ht.read) (hwording.side hread) hend hstart, if_neg hbraced,
        hunionOf]

/-! ## 7. Types of every form -/

/-- A name with displayed types in brackets behind it. -/
theorem readsBack_applied {t : ApiType} (hshort : t.display.toList.length < 2 ^ 32) (name : String)
    (hname : name ∈ containerNames) (h : ∀ u ∈ types, ReadsBack u)
    (hdisplay : t.display = name ++ "[" ++ ApiType.displayList ", " types ++ "]")
    (hread : subscripted name.toList types = t) : ReadsBack t := by
  have htext : t.display.toList
      = name.toList ++ inBrackets (ApiType.displayList ", " types).toList := by
    rw [hdisplay]
    simp [inBrackets]
  obtain ⟨hbalanced, hunadorned⟩ := balanced_arguments h
  have hbrackets : (inBrackets (ApiType.displayList ", " types).toList).length < 2 ^ 32 := by
    rw [htext, List.length_append] at hshort
    omega
  have hundivided := undivided_applied hname hbalanced hunadorned hbrackets
  have hparse := parseType_applied hname hbalanced hunadorned hbrackets
  rw [read_arguments h, hread] at hparse
  rw [← htext] at hundivided hparse
  exact ⟨hundivided.toWording, fun _ => hundivided, hparse⟩

theorem lastComponent_containerName {name : String} (h : name ∈ containerNames) :
    Text.lastComponent (String.ofList name.toList) = name := by
  have hnames : ∀ name ∈ containerNames,
      Text.lastComponent (String.ofList name.toList) = name := by
    decide +kernel
  exact hnames name h

/-- With one type at most it does not matter what stands between the types. -/
theorem displayList_eq (h : types.length ≤ 1) (sep sep' : String) :
    ApiType.displayList sep types = ApiType.displayList sep' types := by
  match types, h with
  | [], _ => rfl
  | [t], _ => rfl

/-- Every common type is read back, given that its parts are. -/
theorem readsBack_of_parts {t : ApiType} (htidy : t.IsTidy) (hcommon : t.isCommon = true)
    (hshort : t.display.toList.length < 2 ^ 32) (h : ∀ p ∈ t.parts, ReadsBack p) :
    ReadsBack t := by
  cases t with
  | named name qname =>
    obtain ⟨hname, hqname⟩ : name ∈ ApiType.commonNames ∧ qname = "builtins." ++ name := by
      simpa [ApiType.isCommon] using hcommon
    have hundivided := undivided_name hname
    refine ⟨hundivided.toWording, fun _ => hundivided, ?_⟩
    rw [hqname]
    exact parseType_name hname
  | list types =>
    have hlength : types.length ≤ 1 := of_decide_eq_true hcommon
    refine readsBack_applied hshort "list" (by decide) h ?_ ?_
    · rw [ApiType.display, displayList_eq hlength " | " ", "]
      rfl
    · rw [subscripted, lastComponent_containerName (by decide)]
      rfl
  | set types =>
    have hlength : types.length ≤ 1 := of_decide_eq_true hcommon
    refine readsBack_applied hshort "set" (by decide) h ?_ ?_
    · rw [ApiType.display, displayList_eq hlength " | " ", "]
      rfl
    · rw [subscripted, lastComponent_containerName (by decide)]
      have hmembers := congrArg Ascending.toList (Ascending.ofList_toList ⟨types, htidy⟩)
      exact congrArg ApiType.set hmembers
  | tuple types =>
    refine readsBack_applied hshort "tuple" (by decide) h ?_ ?_
    · rw [ApiType.display]
      rfl
    · rw [subscripted, lastComponent_containerName (by decide)]
      rfl
  | dict k v =>
    refine readsBack_applied hshort "dict" (by decide) h ?_ ?_
    · have hinner : ApiType.displayList ", " [k, v] = k.display ++ ", " ++ v.display := rfl
      rw [ApiType.display, ApiType.parts, hinner]
      simp only [String.append_assoc]
      rfl
    · rw [subscripted, lastComponent_containerName (by decide)]
      rfl
  | union types =>
    have hne : types ≠ [] := by
      rintro rfl
      exact absurd htidy.1 (by decide)
    obtain ⟨hwording, hread⟩ := read_alternatives hne h htidy.2.2
    have hunion : ApiType.unionOf types = .union types := by
      rw [← ApiType.unionOf_singleton htidy]
      refine ApiType.unionOf_congr_members fun u => ?_
      rw [ApiType.flatMap_unionMembers_of_flat htidy.2.2, List.flatMap_singleton,
        ApiType.unionMembers]
    rw [hunion] at hread
    refine ⟨hwording, fun hflat => ?_, hread⟩
    cases hflat
  | unknown | namedSequence | enum | boundary | callable | literal | final | typeVar =>
    cases hcommon

theorem length_display_le_displayList {t : ApiType} (h : t ∈ types) (sep : String) :
    t.display.toList.length ≤ (ApiType.displayList sep types).toList.length := by
  induction types with
  | nil => cases h
  | cons first types ih =>
    cases types with
    | nil =>
      rw [List.mem_singleton.1 h]
      exact Nat.le_refl _
    | cons next more =>
      rw [toList_displayList_cons, List.length_append, List.length_append]
      obtain rfl | h := List.mem_cons.1 h
      · omega
      · have hmore := ih h
        omega

theorem length_display_le_of_applied {t p : ApiType} {opened sep : String} (hp : p ∈ types)
    (hdisplay : t.display = opened ++ ApiType.displayList sep types ++ "]") :
    p.display.toList.length ≤ t.display.toList.length := by
  have hle := length_display_le_displayList hp sep
  simp only [hdisplay, String.toList_append, List.length_append]
  omega

/-- The text of a common type holds those of its parts. -/
theorem length_display_le_of_mem_parts {t p : ApiType} (hcommon : t.isCommon = true)
    (hp : p ∈ t.parts) : p.display.toList.length ≤ t.display.toList.length := by
  cases t with
  | named => cases hp
  | list types | set types | tuple types =>
    exact length_display_le_of_applied (show p ∈ types from hp) (by rw [ApiType.display])
  | dict k v =>
    have hdisplay : (ApiType.dict k v).display
        = "dict[" ++ ApiType.displayList ", " [k, v] ++ "]" := by
      rw [ApiType.display, show ApiType.displayList ", " [k, v] = k.display ++ ", " ++ v.display
        from rfl]
      simp only [String.append_assoc]
    exact length_display_le_of_applied hp hdisplay
  | union types => exact length_display_le_displayList hp " | "
  | unknown | namedSequence | enum | boundary | callable | literal | final | typeVar =>
    cases hcommon

theorem readsBack {t : ApiType} (h : t.Proper fun u => u.isCommon = true)
    (hshort : t.display.toList.length < 2 ^ 32) : ReadsBack t := by
  induction t using ApiType.parts_induction with
  | step t ih =>
    obtain ⟨⟨htidy, hcommon⟩, hparts⟩ := ApiType.proper_iff.1 h
    exact readsBack_of_parts htidy hcommon hshort fun p hp => ih p hp (hparts p hp)
      (Nat.lt_of_le_of_lt (length_display_le_of_mem_parts hcommon hp) hshort)

/-- **Displayed types are read back.**  A canonical type that is made of builtin names, `None`,
lists and sets of one element type at most, tuples, dictionaries and unions is what its displayed
text is read as, if that has less than `2 ^ 32` characters. -/
theorem parseType_display {t : ApiType} (hcanonical : t.Canonical)
    (hcommon : ∀ u, ApiType.Within u t → u.isCommon = true)
    (hshort : t.display.toList.length < 2 ^ 32) :
    parseType t.display.toList = some t :=
  (readsBack (fun u hu => ⟨hcanonical u hu, hcommon u hu⟩) hshort).read

namespace Sample

/-- Containers in a union, with a union and empty brackets inside. -/
def nested : ApiType :=
  .union [ApiType.none, .list [], .tuple [.set [.union [ApiType.none, .builtin "str"]]],
    .dict (.tuple []) (.list [.dict (.builtin "int") (.builtin "list")])]

theorem nested_read_back :
    nested.display = "None | list[] | tuple[set[None | str]] | dict[tuple[], list[dict[int, list]]]"
      ∧ parseType nested.display.toList = some nested := by
  have hproper : nested.Proper fun u => u.isCommon = true := by decide +kernel
  have hread := parseType_display (fun u hu => (hproper u hu).1) (fun u hu => (hproper u hu).2)
    (by decide +kernel)
  exact ⟨by decide +kernel, hread⟩

end Sample

end TypeText

end ApiSurface
