import ApiSurface.Docstring.TypeText
import ApiSurface.Proofs.DocstringLines
/-!
# Cuts at the outermost level

The text of a type is cut at commas, at bars and at the word `or`, but not where these stand in
brackets or quotes.  Whether they do is a matter of all that stands before them: a reader goes
through the text and keeps account of its place.  A text is closed if the reader leaves it as it was
entered, and behind a closed text the cuts are those that the rest has by itself.  So joined texts
are cut where they were joined (`split_joinWith`).  The reader counts brackets with a counter that
wraps around; that sums of changes wrap like the changes themselves is all that is needed here.

Bars and the word `or` are cut one after the other, the word in every stretch between bars.  Without
quotes one passage gives the same stretches (`cuts`), and that is the form in which they are
compared: two texts with a bar or the word between them have the alternatives of both
(`alternatives_joined`).
-/

namespace ApiSurface.TypeText

variable {c q sep : Char} {s t : List Char} {p : Place} {depth : Int32}

/-! ## 1. Places -/

theorem deepen_eq_self (h : nesting c = 0) : deepen depth c = depth := by
  simp [deepen, h]

theorem deepen_add (depth : Int32) (c : Char) (n : Int) :
    deepen depth c + Int32.ofInt n = depth + Int32.ofInt (nesting c + n) := by
  rw [deepen, Int32.ofInt_add, Int32.add_assoc]

/-- The place after a text. -/
def Place.after (p : Place) (t : List Char) : Place := t.foldl Place.step p

namespace Place

theorem after_cons (p : Place) (c : Char) (t : List Char) : p.after (c :: t) = (p.step c).after t :=
  rfl

theorem after_append (p : Place) (s t : List Char) : p.after (s ++ t) = (p.after s).after t :=
  List.foldl_append

theorem isOutermost_iff : p.isOutermost = true ↔ p = {} := by
  obtain ⟨depth, quote⟩ := p
  cases quote <;> simp [isOutermost]

theorem step_plain (h : isQuote c = false) (depth : Int32) :
    step ⟨depth, none⟩ c = ⟨deepen depth c, none⟩ := by
  simp [step, h]

theorem step_eq_self (hquote : isQuote c = false) (hnesting : nesting c = 0) :
    step {} c = {} :=
  (step_plain hquote 0).trans (by rw [deepen_eq_self hnesting])

theorem step_quote (h : isQuote c = true) (depth : Int32) :
    step ⟨depth, none⟩ c = ⟨depth, some c⟩ := if_pos h

/-- A text stays in the quotes that it does not close. -/
theorem after_of_not_mem (h : q ∉ t) (depth : Int32) :
    after ⟨depth, some q⟩ t = ⟨depth, some q⟩ := by
  induction t with
  | nil => rfl
  | cons c t ih =>
    rw [List.mem_cons, not_or] at h
    have hstep : step ⟨depth, some q⟩ c = ⟨depth, some q⟩ := if_neg (Ne.symm h.1)
    rw [after_cons, hstep, ih h.2]

/-- A reader comes out of a quotation as it went in. -/
theorem after_quotation (hq : isQuote q = true) (hs : q ∉ s) (depth : Int32) (t : List Char) :
    after ⟨depth, none⟩ (q :: (s ++ q :: t)) = after ⟨depth, none⟩ t := by
  have hclose : step ⟨depth, some q⟩ q = ⟨depth, none⟩ := if_pos rfl
  rw [after_cons, step_quote hq, after_append, after_of_not_mem hs, after_cons, hclose]

end Place

/-- Blanks are neither quotes nor brackets. -/
theorem isQuote_nesting_of_isBlank (h : Text.isBlank c = true) :
    isQuote c = false ∧ nesting c = 0 := by
  have hnot : ∀ d, Text.isBlank d = false → (c == d) = false := fun d hd =>
    beq_false_of_ne fun heq => by rw [heq, hd] at h; cases h
  constructor
  · rw [isQuote, hnot '\'' (by decide), hnot '"' (by decide)]
    rfl
  · rw [nesting, hnot '[' (by decide), hnot '(' (by decide), hnot '\x7b' (by decide),
      hnot ']' (by decide), hnot ')' (by decide), hnot '\x7d' (by decide)]
    rfl

/-- That brackets and quotes are closed at the end of a text. -/
def Closed (t : List Char) : Prop := Place.after {} t = {}

instance : DecidablePred Closed := fun t => inferInstanceAs (Decidable (Place.after {} t = {}))

theorem Closed.append (hs : Closed s) (ht : Closed t) : Closed (s ++ t) := by
  rw [Closed, Place.after_append, hs, ht]

/-- That a character stands in a text in brackets or quotes only. -/
def Shelters (t : List Char) (c : Char) : Prop :=
  ∀ before after, t = before ++ c :: after → (Place.after {} before).isOutermost = false

theorem shelters_of_not_mem (h : c ∉ t) : Shelters t c := by
  rintro before after rfl
  exact absurd (by simp) h

theorem Shelters.append (hclosed : Closed s) (hs : Shelters s c) (ht : Shelters t c) :
    Shelters (s ++ t) c := by
  intro before after heq
  rcases List.append_eq_append_iff.1 heq with ⟨mid, rfl, hmid⟩ | ⟨mid, rfl, hmid⟩
  · rw [Place.after_append, hclosed]
    exact ht mid after hmid
  · cases mid with
    | nil =>
      rw [List.nil_append] at hmid
      rw [← List.append_nil before, hclosed]
      exact ht [] after hmid.symm
    | cons d mid =>
      obtain ⟨rfl, rfl⟩ := List.cons.inj hmid
      exact hs before mid rfl

/-! ## 2. Cuts at a separator -/

theorem consHead_append {pieces more : List (List Char)} (h : pieces ≠ []) :
    consHead c (pieces ++ more) = consHead c pieces ++ more := by
  cases pieces with
  | nil => exact absurd rfl h
  | cons piece pieces => rfl

theorem consHead_ne_nil (c : Char) (pieces : List (List Char)) : consHead c pieces ≠ [] := by
  cases pieces <;> simp [consHead]

theorem splitFrom_ne_nil (sep : Char) (p : Place) (t : List Char) : splitFrom sep p t ≠ [] := by
  cases t with
  | nil => simp [splitFrom]
  | cons c t =>
    rw [splitFrom]
    split
    · simp
    · exact consHead_ne_nil _ _

/-- A separator at the outermost level divides the stretches before it from those behind. -/
theorem splitFrom_append_cons (h : (p.after s).isOutermost = true) :
    splitFrom sep p (s ++ sep :: t)
      = splitFrom sep p s ++ splitFrom sep ((p.after s).step sep) t := by
  induction s generalizing p with
  | nil =>
    rw [List.nil_append, splitFrom.eq_2, if_pos ⟨rfl, h⟩]
    rfl
  | cons c s ih =>
    rw [List.cons_append, splitFrom, splitFrom, ih h]
    split
    · rfl
    · exact consHead_append (splitFrom_ne_nil _ _ _)

theorem splitFrom_eq_singleton
    (h : ∀ before after, t = before ++ sep :: after → (p.after before).isOutermost = false) :
    splitFrom sep p t = [t] := by
  induction t generalizing p with
  | nil => rfl
  | cons c t ih =>
    have hcut : ¬ (c = sep ∧ p.isOutermost = true) := by
      rintro ⟨rfl, hp⟩
      have hsheltered := h [] t rfl
      rw [show p.after [] = p from rfl, hp] at hsheltered
      cases hsheltered
    rw [splitFrom, if_neg hcut, ih]
    · rfl
    · intro before after heq
      exact h (c :: before) after (by rw [heq]; rfl)

theorem split_eq_singleton (h : Shelters t sep) : split sep t = [t] := splitFrom_eq_singleton h

theorem shelters_iff : Shelters t sep ↔ split sep t = [t] := by
  refine ⟨split_eq_singleton, fun hwhole before after heq => ?_⟩
  by_contra houter
  rw [Bool.not_eq_false] at houter
  have hlength := congrArg List.length hwhole
  rw [heq, split, splitFrom_append_cons houter, List.length_append,
    List.length_singleton] at hlength
  have hbefore := List.length_pos_iff.2 (splitFrom_ne_nil sep {} before)
  have hafter := List.length_pos_iff.2
    (splitFrom_ne_nil sep ((Place.after {} before).step sep) after)
  omega

instance : Decidable (Shelters t sep) := decidable_of_iff _ shelters_iff.symm

/-- That a stretch is another one with blanks behind it. -/
def Pads (padded piece : List Char) : Prop := ∃ b, Text.IsBlank b ∧ padded = piece ++ b

theorem Pads.refl (piece : List Char) : Pads piece piece := ⟨[], Text.isBlank_nil, by simp⟩

theorem Pads.consHead {padded pieces : List (List Char)} (h : List.Forall₂ Pads padded pieces) :
    List.Forall₂ Pads (consHead c padded) (TypeText.consHead c pieces) := by
  cases h with
  | nil => exact .cons (.refl [c]) .nil
  | cons hfirst hmore =>
    obtain ⟨b, hb, rfl⟩ := hfirst
    exact .cons ⟨b, hb, rfl⟩ hmore

theorem Pads.map_trim {padded pieces : List (List Char)} (h : List.Forall₂ Pads padded pieces) :
    padded.map Text.trim = pieces.map Text.trim := by
  induction h with
  | nil => rfl
  | cons hfirst _ ih =>
    obtain ⟨b, hb, rfl⟩ := hfirst
    rw [List.map_cons, List.map_cons, Text.trim_append_of_isBlank hb, ih]

/-- Blanks in front of the first stretch are trimmed away. -/
theorem map_trim_consHead {pieces : List (List Char)} (hc : Text.isBlank c = true)
    (hne : pieces ≠ []) : (consHead c pieces).map Text.trim = pieces.map Text.trim := by
  cases pieces with
  | nil => exact absurd rfl hne
  | cons first more =>
    have htrim : Text.trim (c :: first) = Text.trim first :=
      Text.trim_of_isBlank_append (s := [c]) (List.forall_mem_singleton.2 hc)
    rw [consHead, List.map_cons, htrim, List.map_cons]

section TrimmedStretches

variable {blanks : List Char} (hsep : Text.isBlank sep = false) (hblanks : Text.IsBlank blanks)

include hsep hblanks

theorem not_mem_of_isBlank : sep ∉ blanks := fun hmem => by
  rw [hblanks sep hmem] at hsep
  cases hsep

theorem splitFrom_append_blanks (p : Place) (t : List Char) :
    List.Forall₂ Pads (splitFrom sep p (t ++ blanks)) (splitFrom sep p t) := by
  induction t generalizing p with
  | nil =>
    have hwhole : splitFrom sep p blanks = [blanks] := splitFrom_eq_singleton fun _ _ heq =>
      absurd (by simp [heq]) (not_mem_of_isBlank hsep hblanks)
    rw [List.nil_append, hwhole]
    exact .cons ⟨blanks, hblanks, rfl⟩ .nil
  | cons c t ih =>
    rw [List.cons_append, splitFrom, splitFrom]
    split
    · exact .cons (.refl []) (ih _)
    · exact Pads.consHead (ih _)

theorem map_trim_split_blanks_append (t : List Char) :
    (split sep (blanks ++ t)).map Text.trim = (split sep t).map Text.trim := by
  induction blanks with
  | nil => rfl
  | cons c blanks ih =>
    obtain ⟨hc, hmore⟩ := List.forall_mem_cons.1 hblanks
    obtain ⟨hquote, hnesting⟩ := isQuote_nesting_of_isBlank hc
    have hcut : ¬ (c = sep ∧ Place.isOutermost {} = true) := fun h =>
      not_mem_of_isBlank hsep hblanks (h.1 ▸ List.mem_cons_self)
    rw [split, List.cons_append, splitFrom, if_neg hcut, Place.step_eq_self hquote hnesting,
      map_trim_consHead hc (splitFrom_ne_nil _ _ _)]
    exact ih hmore

omit hblanks

/-- Trimming a text first makes no difference to its trimmed stretches. -/
theorem map_trim_split_trim (t : List Char) :
    (split sep (Text.trim t)).map Text.trim = (split sep t).map Text.trim := by
  obtain ⟨b, b', hb, hb', heq⟩ := Text.exists_trim t
  conv_rhs => rw [heq, map_trim_split_blanks_append hsep hb]
  exact (Pads.map_trim (splitFrom_append_blanks hsep hb' _ _)).symm

end TrimmedStretches

/-- Closed texts that shelter a separator are the stretches of what they are joined to with it. -/
theorem split_joinWith {gap first : List Char} {more : List (List Char)}
    (hstep : Place.step {} sep = {}) (hgap : Closed gap ∧ Shelters gap sep)
    (hfirst : Closed first ∧ Shelters first sep)
    (hmore : ∀ piece ∈ more, Closed piece ∧ Shelters piece sep) :
    split sep (Text.joinWith (sep :: gap) (first :: more)) = first :: more.map (gap ++ ·) := by
  induction more generalizing first with
  | nil => exact split_eq_singleton hfirst.2
  | cons next more ih =>
    obtain ⟨hnext, hmore⟩ := List.forall_mem_cons.1 hmore
    -- the gap counts as the beginning of the next piece
    have hjoin : Text.joinWith (sep :: gap) (first :: next :: more)
        = first ++ sep :: Text.joinWith (sep :: gap) ((gap ++ next) :: more) := by
      rw [Text.joinWith_cons_cons]
      cases more <;> simp [Text.joinWith]
    have houter : (Place.after {} first).isOutermost = true := Place.isOutermost_iff.2 hfirst.1
    rw [hjoin, split, splitFrom_append_cons houter, hfirst.1, hstep,
      splitFrom_eq_singleton hfirst.2]
    exact congrArg (first :: ·)
      (ih ⟨hgap.1.append hnext.1, hgap.2.append hgap.1 hnext.2⟩ hmore)

/-! ## 3. Depth -/

/-- How many brackets more a text opens than it closes. -/
def rise : List Char → Int
  | [] => 0
  | c :: t => nesting c + rise t

theorem rise_append (s t : List Char) : rise (s ++ t) = rise s + rise t := by
  induction s with
  | nil => simp [rise]
  | cons c s ih => rw [List.cons_append, rise, rise, ih, Int.add_assoc]

/-- That a text has no quotes. -/
def Unquoted (t : List Char) : Prop := ∀ c ∈ t, isQuote c = false

instance : DecidablePred Unquoted := fun t => List.decidableBAll _ t

/-- Without quotes only the depth counts. -/
theorem after_of_unquoted (h : Unquoted t) (depth : Int32) :
    Place.after ⟨depth, none⟩ t = ⟨depth + Int32.ofInt (rise t), none⟩ := by
  induction t generalizing depth with
  | nil => simp [Place.after, rise]
  | cons c t ih =>
    rw [Unquoted, List.forall_mem_cons] at h
    rw [Place.after_cons, Place.step_plain h.1, ih h.2, rise, deepen_add]

theorem closed_of_unquoted (h : Unquoted t) (hrise : rise t = 0) : Closed t := by
  have hafter := after_of_unquoted h 0
  rwa [hrise] at hafter

theorem Unquoted.append (hs : Unquoted s) (ht : Unquoted t) : Unquoted (s ++ t) :=
  List.forall_mem_append.2 ⟨hs, ht⟩

theorem unquoted_of_isBlank (h : Text.IsBlank t) : Unquoted t := fun c hc =>
  (isQuote_nesting_of_isBlank (h c hc)).1

theorem rise_eq_zero (h : ∀ c ∈ t, nesting c = 0) : rise t = 0 := by
  induction t with
  | nil => rfl
  | cons c t ih =>
    rw [List.forall_mem_cons] at h
    rw [rise, h.1, ih h.2, Int.add_zero]

theorem rise_of_isBlank (h : Text.IsBlank t) : rise t = 0 :=
  rise_eq_zero fun c hc => (isQuote_nesting_of_isBlank (h c hc)).2

theorem closed_of_isBlank (h : Text.IsBlank t) : Closed t :=
  closed_of_unquoted (unquoted_of_isBlank h) (rise_of_isBlank h)

/-! ## 4. Cuts at alternatives -/

/-- The word between two alternatives. -/
def orWord : List Char := [' ', 'o', 'r', ' ']

/-- The stretches between bars and words `or` outside brackets, in one passage. -/
def cuts (depth : Int32) : List Char → List (List Char)
  | ' ' :: 'o' :: 'r' :: ' ' :: t =>
    if depth = 0 then [] :: cuts 0 t else consHead ' ' (cuts depth ('o' :: 'r' :: ' ' :: t))
  | c :: t =>
    if c = '|' ∧ depth = 0 then [] :: cuts depth t else consHead c (cuts (deepen depth c) t)
  | [] => [[]]

/-- That a text begins with something to be cut out. -/
def StartsCut (t : List Char) : Prop := orWord <+: t ∨ ['|'] <+: t

theorem cuts_or (t : List Char) : cuts 0 (orWord ++ t) = [] :: cuts 0 t := rfl

theorem cuts_bar (t : List Char) : cuts 0 ('|' :: t) = [] :: cuts 0 t := by
  simp [cuts]

theorem cuts_cons (h : ¬ (depth = 0 ∧ StartsCut (c :: t))) :
    cuts depth (c :: t) = consHead c (cuts (deepen depth c) t) := by
  rw [cuts.eq_def]
  split
  · rename_i rest heq
    obtain ⟨rfl, rfl⟩ := List.cons.inj heq
    have hdepth : depth ≠ 0 := fun hzero => h ⟨hzero, .inl ⟨rest, rfl⟩⟩
    rw [if_neg hdepth, deepen_eq_self rfl]
  · rename_i d rest _ heq
    obtain ⟨rfl, rfl⟩ := List.cons.inj heq
    refine if_neg ?_
    rintro ⟨rfl, hdepth⟩
    exact h ⟨hdepth, .inr ⟨t, rfl⟩⟩
  · rename_i heq
    cases heq

/-- Induction along the passage through a text. -/
theorem cuts_induction {motive : Int32 → List Char → Prop} (nil : ∀ depth, motive depth [])
    (or : ∀ t, motive 0 t → motive 0 (orWord ++ t)) (bar : ∀ t, motive 0 t → motive 0 ('|' :: t))
    (cons : ∀ depth c t, ¬ (depth = 0 ∧ StartsCut (c :: t)) → motive (deepen depth c) t →
      motive depth (c :: t))
    (depth : Int32) (t : List Char) : motive depth t := by
  induction hn : t.length using Nat.strongRecOn generalizing depth t with
  | ind n ih =>
    by_cases hcut : depth = 0 ∧ StartsCut t
    · obtain ⟨rfl, ⟨rest, rfl⟩ | ⟨rest, rfl⟩⟩ := hcut
      · have hlength : rest.length < n := by
          rw [← hn, List.length_append]
          exact Nat.lt_add_of_pos_left (by decide)
        exact or rest (ih _ hlength _ _ rfl)
      · exact bar rest (ih _ (by simp [← hn]) _ _ rfl)
    · cases t with
      | nil => exact nil depth
      | cons c t => exact cons depth c t hcut (ih _ (by simp [← hn]) _ _ rfl)

theorem cuts_ne_nil (depth : Int32) (t : List Char) : cuts depth t ≠ [] := by
  induction depth, t using cuts_induction with
  | nil => simp [cuts]
  | or t => simp [cuts_or]
  | bar t => simp [cuts_bar]
  | cons depth c t hcut =>
    rw [cuts_cons hcut]
    exact consHead_ne_nil _ _

/-- What is cut nowhere is left whole. -/
theorem eq_of_cuts_eq_singleton {piece : List Char} (h : cuts depth t = [piece]) : piece = t := by
  induction depth, t using cuts_induction generalizing piece with
  | nil => exact (List.singleton_inj.1 h).symm
  | or t => exact absurd (List.cons.inj h).2 (cuts_ne_nil _ _)
  | bar t =>
    rw [cuts_bar] at h
    exact absurd (List.cons.inj h).2 (cuts_ne_nil _ _)
  | cons depth c t hcut ih =>
    rw [cuts_cons hcut] at h
    cases hrest : cuts (deepen depth c) t with
    | nil => exact absurd hrest (cuts_ne_nil _ _)
    | cons first more =>
      rw [hrest, consHead, List.cons.injEq] at h
      have hfirst : first = t := ih (by rw [hrest, h.2])
      rw [← h.1, hfirst]

theorem cuts_eq_singleton
    (h : ∀ before after, t = before ++ after → depth + Int32.ofInt (rise before) = 0 →
      ¬ StartsCut after) :
    cuts depth t = [t] := by
  induction t generalizing depth with
  | nil => rfl
  | cons c t ih =>
    have hcut : ¬ (depth = 0 ∧ StartsCut (c :: t)) := fun hcut =>
      h [] (c :: t) rfl (by simpa [rise] using hcut.1) hcut.2
    rw [cuts_cons hcut, ih]
    · rfl
    · intro before after heq hdepth
      exact h (c :: before) after (by rw [heq]; rfl) (by rw [rise, ← deepen_add, hdepth])

/-! ## 5. Alternatives side by side -/

/-- That nothing to be cut out stands across the border between two texts. -/
def NoCutAcross (s t : List Char) : Prop :=
  ∀ u, u <:+ s → u ≠ [] → StartsCut (u ++ t) → StartsCut u

theorem NoCutAcross.of_append {u : List Char} (h : NoCutAcross (u ++ s) t) : NoCutAcross s t :=
  fun v hv => h v (hv.trans (List.suffix_append u s))

/-- Only the word can stand across a border, with its last blank behind it or more. -/
theorem noCutAcross (hend : ¬ ([' ', 'o', 'r'] <:+ s ∧ [' '] <+: t)) (ho : ¬ ['o'] <+: t)
    (hr : ¬ ['r'] <+: t) : NoCutAcross s t := by
  intro u hu hne hcut
  rw [StartsCut, orWord] at hcut ⊢
  -- the word may end behind the border, with what is left of it there
  rcases u with - | ⟨a, - | ⟨b, - | ⟨c, - | ⟨d, rest⟩⟩⟩⟩
  · exact absurd rfl hne
  · simp only [List.cons_append, List.nil_append, List.cons_prefix_cons] at hcut ⊢
    rcases hcut with ⟨-, h⟩ | ⟨rfl, -⟩
    · exact absurd (List.IsPrefix.trans (by simp) h) ho
    · simp
  · simp only [List.cons_append, List.nil_append, List.cons_prefix_cons] at hcut ⊢
    rcases hcut with ⟨-, -, h⟩ | ⟨rfl, -⟩
    · exact absurd (List.IsPrefix.trans (by simp) h) hr
    · simp
  · simp only [List.cons_append, List.nil_append, List.cons_prefix_cons] at hcut ⊢
    rcases hcut with ⟨rfl, rfl, rfl, h⟩ | ⟨rfl, -⟩
    · exact absurd ⟨hu, h⟩ hend
    · simp
  · simpa only [List.cons_append, List.cons_prefix_cons, List.nil_prefix, and_true] using hcut

/-- Two texts with something between them that is cut out. -/
theorem cuts_append {mark : List Char} (hmark : cuts 0 (mark ++ t) = [] :: cuts 0 t)
    (hacross : NoCutAcross s (mark ++ t)) (hrise : depth + Int32.ofInt (rise s) = 0) :
    cuts depth (s ++ (mark ++ t)) = cuts depth s ++ cuts 0 t := by
  induction depth, s using cuts_induction with
  | nil depth =>
    have hzero : depth = 0 := by simpa [rise] using hrise
    rw [List.nil_append, hzero, hmark]
    rfl
  | or s ih =>
    have hrest : 0 + Int32.ofInt (rise s) = 0 := by
      rwa [rise_append, show rise orWord = 0 from rfl, Int.zero_add] at hrise
    rw [List.append_assoc, cuts_or, cuts_or, ih hacross.of_append hrest, List.cons_append]
  | bar s ih =>
    have hrest : 0 + Int32.ofInt (rise s) = 0 := by
      rwa [rise, show nesting '|' = 0 from rfl, Int.zero_add] at hrise
    rw [List.cons_append, cuts_bar, cuts_bar, ih (hacross.of_append (u := ['|'])) hrest,
      List.cons_append]
  | cons depth c s hcut ih =>
    have hcut' : ¬ (depth = 0 ∧ StartsCut (c :: (s ++ (mark ++ t)))) := fun h =>
      hcut ⟨h.1, hacross (c :: s) List.suffix_rfl (by simp) h.2⟩
    rw [List.cons_append, cuts_cons hcut', cuts_cons hcut, ih (hacross.of_append (u := [c])),
      consHead_append (cuts_ne_nil _ _)]
    rw [deepen_add, ← rise, hrise]

section Blanks

variable {blanks : List Char} (hblanks : Text.IsBlank blanks)

include hblanks

theorem not_startsCut_of_isBlank : ¬ StartsCut blanks := by
  rintro (h | h)
  · exact absurd (hblanks 'o' (h.subset (by decide))) (by decide)
  · exact absurd (hblanks '|' (h.subset (by decide))) (by decide)

/-- Blanks behind a text belong to its last stretch. -/
theorem cuts_append_blanks (hacross : NoCutAcross s blanks) :
    List.Forall₂ Pads (cuts depth (s ++ blanks)) (cuts depth s) := by
  induction depth, s using cuts_induction with
  | nil depth =>
    have hwhole : cuts depth blanks = [blanks] := by
      refine cuts_eq_singleton fun before after heq _ => not_startsCut_of_isBlank fun c hc => ?_
      exact hblanks c (by rw [heq]; exact List.mem_append_right _ hc)
    rw [List.nil_append, hwhole]
    exact .cons ⟨blanks, hblanks, rfl⟩ .nil
  | or s ih =>
    rw [List.append_assoc, cuts_or, cuts_or]
    exact .cons (.refl []) (ih hacross.of_append)
  | bar s ih =>
    rw [List.cons_append, cuts_bar, cuts_bar]
    exact .cons (.refl []) (ih (hacross.of_append (u := ['|'])))
  | cons depth c s hcut ih =>
    have hcut' : ¬ (depth = 0 ∧ StartsCut (c :: (s ++ blanks))) := fun h =>
      hcut ⟨h.1, hacross (c :: s) List.suffix_rfl (by simp) h.2⟩
    rw [List.cons_append, cuts_cons hcut', cuts_cons hcut]
    exact Pads.consHead (ih (hacross.of_append (u := [c])))

/-- Blanks in front of a text belong to its first stretch. -/
theorem map_trim_cuts_blanks_append (h : ¬ ['o', 'r', ' '] <+: t) :
    (cuts 0 (blanks ++ t)).map Text.trim = (cuts 0 t).map Text.trim := by
  induction blanks with
  | nil => rfl
  | cons c blanks ih =>
    obtain ⟨hc, hblanks⟩ := List.forall_mem_cons.1 hblanks
    have hcut : ¬ StartsCut (c :: (blanks ++ t)) := by
      rintro (hword | hbar)
      · obtain ⟨-, hrest⟩ := List.cons_prefix_cons.1 hword
        cases blanks with
        | nil => exact h hrest
        | cons d blanks =>
          obtain ⟨rfl, -⟩ := List.cons_prefix_cons.1 hrest
          exact absurd (hblanks 'o' List.mem_cons_self) (by decide)
      · obtain ⟨rfl, -⟩ := List.cons_prefix_cons.1 hbar
        exact absurd hc (by decide)
    rw [List.cons_append, cuts_cons fun hzero => hcut hzero.2,
      deepen_eq_self (isQuote_nesting_of_isBlank hc).2, ← ih hblanks,
      map_trim_consHead hc (cuts_ne_nil _ _)]

end Blanks

/-! ## 6. One passage gives the alternatives -/

theorem splitOr_cons (h : ¬ (depth = 0 ∧ orWord <+: c :: t)) :
    splitOr depth (c :: t) = consHead c (splitOr (deepen depth c) t) := by
  rw [splitOr.eq_def]
  split
  · rename_i rest heq
    obtain ⟨rfl, rfl⟩ := List.cons.inj heq
    have hdepth : depth ≠ 0 := fun hzero => h ⟨hzero, rest, rfl⟩
    rw [if_neg hdepth, deepen_eq_self rfl]
  · rename_i heq
    obtain ⟨rfl, rfl⟩ := List.cons.inj heq
    rfl
  · rename_i heq
    cases heq

theorem splitOr_ne_nil (depth : Int32) (t : List Char) : splitOr depth t ≠ [] := by
  fun_induction splitOr depth t with
  | case1 | case4 => simp
  | case2 | case3 => exact consHead_ne_nil _ _

theorem prefix_of_splitFrom {first : List Char} {more : List (List Char)}
    (h : splitFrom sep p t = first :: more) : first <+: t := by
  induction t generalizing p first more with
  | nil =>
    rw [splitFrom] at h
    exact (List.cons.inj h).1 ▸ List.nil_prefix
  | cons c t ih =>
    rw [splitFrom] at h
    split at h
    · rw [← (List.cons.inj h).1]
      exact List.nil_prefix
    · cases hrest : splitFrom sep (p.step c) t with
      | nil => exact absurd hrest (splitFrom_ne_nil _ _ _)
      | cons first' more' =>
        rw [hrest, consHead] at h
        rw [← (List.cons.inj h).1]
        exact List.cons_prefix_cons.2 ⟨rfl, ih hrest⟩

/-- Cutting at bars and then at words, or at both in one passage, is the same without quotes. -/
theorem cuts_eq_splitOr {first : List Char} {more : List (List Char)} (h : Unquoted t)
    (hsplit : splitFrom '|' ⟨depth, none⟩ t = first :: more) :
    cuts depth t = splitOr depth first ++ more.flatMap (splitOr 0) := by
  induction depth, t using cuts_induction generalizing first more with
  | nil depth =>
    obtain ⟨rfl, rfl⟩ := List.cons.inj hsplit
    rfl
  | or t ih =>
    cases hrest : splitFrom '|' ⟨0, none⟩ t with
    | nil => exact absurd hrest (splitFrom_ne_nil _ _ _)
    | cons first' more' =>
      have hword : splitFrom '|' ⟨0, none⟩ (orWord ++ t)
          = consHead ' ' (consHead 'o' (consHead 'r' (consHead ' ' (splitFrom '|' ⟨0, none⟩ t)))) :=
        rfl
      rw [hword, hrest] at hsplit
      obtain ⟨rfl, rfl⟩ := List.cons.inj hsplit
      rw [cuts_or, ih (fun c hc => h c (List.mem_append_right _ hc)) hrest]
      rfl
  | bar t ih =>
    have hbar : splitFrom '|' ⟨0, none⟩ ('|' :: t) = [] :: splitFrom '|' ⟨0, none⟩ t := rfl
    rw [hbar] at hsplit
    obtain ⟨rfl, hmore⟩ := List.cons.inj hsplit
    cases more with
    | nil => exact absurd hmore (splitFrom_ne_nil _ _ _)
    | cons first' more' =>
      rw [cuts_bar, ih (fun c hc => h c (List.mem_cons_of_mem _ hc)) hmore]
      rfl
  | cons depth c t hcut ih =>
    rw [Unquoted, List.forall_mem_cons] at h
    have hbar : ¬ (c = '|' ∧ Place.isOutermost ⟨depth, none⟩ = true) := by
      rintro ⟨rfl, hp⟩
      exact hcut ⟨by simpa [Place.isOutermost] using hp, .inr ⟨t, rfl⟩⟩
    rw [splitFrom, if_neg hbar, Place.step_plain h.1] at hsplit
    cases hrest : splitFrom '|' ⟨deepen depth c, none⟩ t with
    | nil => exact absurd hrest (splitFrom_ne_nil _ _ _)
    | cons first' more' =>
      rw [hrest] at hsplit
      obtain ⟨rfl, rfl⟩ := List.cons.inj hsplit
      -- the first stretch begins like the text, so it does not begin with the word either
      have hword : ¬ (depth = 0 ∧ orWord <+: c :: first') := fun hword =>
        hcut ⟨hword.1,
          .inl (hword.2.trans (List.cons_prefix_cons.2 ⟨rfl, prefix_of_splitFrom hrest⟩))⟩
      rw [cuts_cons hcut, ih h.2 hrest, splitOr_cons hword]
      exact consHead_append (splitOr_ne_nil _ _)

/-- The alternatives of a text without quotes. -/
theorem alternatives_eq (h : Unquoted t) :
    alternatives t = ((cuts 0 t).map Text.trim).filter fun a => !a.isEmpty := by
  cases hsplit : splitFrom '|' ⟨0, none⟩ t with
  | nil => exact absurd hsplit (splitFrom_ne_nil _ _ _)
  | cons first more =>
    have hpieces : (split '|' t).flatMap (splitOr 0) = cuts 0 t := by
      rw [cuts_eq_splitOr h hsplit, split]
      show List.flatMap _ (splitFrom '|' ⟨0, none⟩ t) = _
      rw [hsplit, List.flatMap_cons]
    rw [alternatives, hpieces]

/-- **Alternatives are those of both sides.**  Two texts without quotes, the first with closed
brackets, with a bar or the word `or` between them and any blanks around it, have the alternatives
of the one and then those of the other.  The word must not stand half across the border. -/
theorem alternatives_joined {mark left right : List Char} (hmark : mark = orWord ∨ mark = ['|'])
    (hleft : Text.IsBlank left) (hright : Text.IsBlank right) (hs : Unquoted s) (ht : Unquoted t)
    (hrise : rise s = 0) (hend : ¬ [' ', 'o', 'r'] <:+ s) (hstart : ¬ ['o', 'r', ' '] <+: t) :
    alternatives (s ++ left ++ (mark ++ (right ++ t))) = alternatives s ++ alternatives t := by
  have hwhole : Unquoted (s ++ left ++ (mark ++ (right ++ t))) := by
    have hmark' : Unquoted mark := by rcases hmark with rfl | rfl <;> decide
    exact (hs.append (unquoted_of_isBlank hleft)).append
      (hmark'.append ((unquoted_of_isBlank hright).append ht))
  have hcut : cuts 0 (mark ++ (right ++ t)) = [] :: cuts 0 (right ++ t) := by
    rcases hmark with rfl | rfl
    · exact cuts_or _
    · exact cuts_bar _
  have hblanks : NoCutAcross s left := by
    refine noCutAcross (fun h => hend h.1) (fun h => ?_) fun h => ?_
    · exact absurd (hleft 'o' (h.subset List.mem_cons_self)) (by decide)
    · exact absurd (hleft 'r' (h.subset List.mem_cons_self)) (by decide)
  have hacross : NoCutAcross (s ++ left) (mark ++ (right ++ t)) := by
    have hend' : ¬ [' ', 'o', 'r'] <:+ s ++ left := by
      intro h
      rcases List.eq_nil_or_concat' left with rfl | ⟨rest, c, rfl⟩
      · exact hend (by simpa using h)
      · obtain ⟨u, hu⟩ := h
        have hlast := congrArg List.getLast? hu
        rw [← List.append_assoc, List.getLast?_concat] at hlast
        have hc : c = 'r' := by simpa using hlast.symm
        exact absurd (hleft c (by simp)) (by rw [hc]; decide)
    refine noCutAcross (fun h => hend' h.1) ?_ ?_ <;> rcases hmark with rfl | rfl <;>
      simp [orWord, List.cons_prefix_cons]
  have hrise' : 0 + Int32.ofInt (rise (s ++ left)) = 0 := by
    rw [rise_append, hrise, rise_of_isBlank hleft]
    rfl
  rw [alternatives_eq hwhole, alternatives_eq hs, alternatives_eq ht,
    cuts_append hcut hacross hrise', List.map_append, List.filter_append,
    Pads.map_trim (cuts_append_blanks hleft hblanks), map_trim_cuts_blanks_append hright hstart]

/-! ## 7. A single alternative -/

theorem exists_first_cut (depth : Int32) (h : ¬ StartsCut (c :: t)) :
    ∃ piece more, cuts depth (c :: t) = (c :: piece) :: more := by
  rw [cuts_cons fun hzero => h hzero.2]
  cases hrest : cuts (deepen depth c) t with
  | nil => exact absurd hrest (cuts_ne_nil _ _)
  | cons first more => exact ⟨first, more, rfl⟩

/-- The last stretch ends as the text does. -/
theorem exists_last_cut (depth : Int32) (t : List Char) (hblank : Text.isBlank c = false)
    (hbar : c ≠ '|') :
    ∃ pieces piece, cuts depth (t ++ [c]) = pieces ++ [piece ++ [c]] := by
  have hword : ∀ u, orWord <+: u ++ [c] → orWord <+: u := by
    intro u hu
    rcases List.prefix_concat_iff.1 hu with heq | hu
    · have hlast := congrArg List.getLast? heq
      rw [List.getLast?_concat, orWord] at hlast
      cases hlast
      cases hblank
    · exact hu
  induction depth, t using cuts_induction with
  | nil depth =>
    have hcut : ¬ StartsCut [c] := by
      rintro (h | h)
      · exact absurd (hword [] h) (by decide)
      · exact hbar (List.cons_prefix_cons.1 h).1.symm
    rw [List.nil_append, cuts_cons fun hzero => hcut hzero.2]
    exact ⟨[], [], rfl⟩
  | or t ih =>
    obtain ⟨pieces, piece, heq⟩ := ih
    exact ⟨[] :: pieces, piece, by rw [List.append_assoc, cuts_or, heq, List.cons_append]⟩
  | bar t ih =>
    obtain ⟨pieces, piece, heq⟩ := ih
    exact ⟨[] :: pieces, piece, by rw [List.cons_append, cuts_bar, heq, List.cons_append]⟩
  | cons depth d t hcut ih =>
    have hcut' : ¬ (depth = 0 ∧ StartsCut (d :: (t ++ [c]))) := by
      rintro ⟨hzero, h | h⟩
      · exact hcut ⟨hzero, .inl (hword (d :: t) h)⟩
      · have hbar' := (List.cons_prefix_cons.1 h).1
        exact hcut ⟨hzero, .inr (List.cons_prefix_cons.2 ⟨hbar', List.nil_prefix⟩)⟩
    obtain ⟨pieces, piece, heq⟩ := ih
    rw [List.cons_append, cuts_cons hcut', heq]
    cases pieces with
    | nil => exact ⟨[], d :: piece, rfl⟩
    | cons first pieces => exact ⟨(d :: first) :: pieces, piece, rfl⟩

/-- A trimmed text that neither begins nor ends with a bar has several alternatives or is the only
one. -/
theorem alternatives_eq_singleton (hunquoted : Unquoted t) (htrim : Text.trim t = t) (hne : t ≠ [])
    (hfirst : ¬ ['|'] <+: t) (hlast : ¬ ['|'] <:+ t) (hone : ¬ 1 < (alternatives t).length) :
    alternatives t = [t] := by
  have hkept : ∀ {c : Char} {piece : List Char}, Text.isBlank c = false → c ∈ piece →
      Text.trim piece ≠ [] := by
    intro c piece hc hmem
    rw [Ne, Text.trim_eq_nil_iff]
    exact fun hblank => by rw [hblank c hmem] at hc; cases hc
  obtain ⟨c, rest, hcons, hc⟩ := Text.exists_cons_of_trim_eq_self htrim hne
  obtain ⟨init, d, hconcat, hd⟩ := Text.exists_concat_of_trim_eq_self htrim hne
  have hcut : ¬ StartsCut (c :: rest) := by
    rintro (h | h)
    · rw [← (List.cons_prefix_cons.1 h).1] at hc
      cases hc
    · exact hfirst (hcons ▸ h)
  have hbar : d ≠ '|' := by
    rintro rfl
    exact hlast ⟨init, hconcat.symm⟩
  obtain ⟨piece, more, hcuts⟩ := exists_first_cut 0 hcut
  rw [← hcons] at hcuts
  cases more with
  | nil =>
    have hpiece : c :: piece = t := eq_of_cuts_eq_singleton hcuts
    rw [alternatives_eq hunquoted, hcuts, hpiece, List.map_singleton, htrim]
    simp [hne]
  | cons second others =>
    -- the first stretch and the last are different ones, and neither is blank
    obtain ⟨pieces, last, hcuts'⟩ := exists_last_cut 0 init hd hbar
    rw [← hconcat] at hcuts'
    have hlength := congrArg List.length (hcuts.symm.trans hcuts')
    cases pieces with
    | nil => simp at hlength
    | cons first pieces =>
      have hfirst : first = c :: piece := (List.cons.inj (hcuts'.symm.trans hcuts)).1
      have hsub : List.Sublist [first, last ++ [d]] (cuts 0 t) := by
        rw [hcuts']
        exact List.Sublist.cons_cons _ (List.sublist_append_right _ _)
      have hboth := ((hsub.map Text.trim).filter fun a => !a.isEmpty).length_le
      rw [← alternatives_eq hunquoted] at hboth
      have htwo : (([first, last ++ [d]].map Text.trim).filter fun a => !a.isEmpty).length = 2 := by
        simp [hfirst, hkept hc List.mem_cons_self,
          hkept hd (List.mem_append_right last List.mem_cons_self)]
      omega

end ApiSurface.TypeText
