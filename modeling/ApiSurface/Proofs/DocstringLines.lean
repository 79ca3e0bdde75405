import ApiSurface.Docstring.Sections
import ApiSurface.Proofs.DottedNames
import Mathlib.Data.List.Forall2
import Mathlib.Data.List.TakeWhile
/-!
# Lines of a docstring

Blanks at the end of a line do not count for what is read off it: trimming drops them, and the
indentation is the same with and without them.  A carriage return there is one of these blanks, so
it makes no difference that the last line of a text keeps it and all others do not (`ReadAs`).

In a section, lines come in blocks: the line that starts an entry and the lines that continue it.
Where the lines that start entries stand at the least indentation and all others are deeper, the
blocks are found again.
-/

namespace ApiSurface.Text

variable {c : Char} {s t line read : List Char}

/-! ## 1. Blanks -/

/-- That a text has nothing but blanks. -/
def IsBlank (t : List Char) : Prop := ∀ c ∈ t, isBlank c = true

instance : DecidablePred IsBlank := fun t => List.decidableBAll _ t

theorem isBlank_nil : IsBlank [] := fun _ hc => absurd hc List.not_mem_nil

theorem isBlank_replicate {c : Char} (h : isBlank c = true) (n : Nat) :
    IsBlank (List.replicate n c) :=
  fun _ hd => List.eq_of_mem_replicate hd ▸ h

theorem inRanges_eq_true {ranges : List (Nat × Nat)} :
    inRanges ranges c = true ↔ ∃ r ∈ ranges, r.1 ≤ c.toNat ∧ c.toNat ≤ r.2 := by
  simp [inRanges]

/-- No word character is blank. -/
theorem isBlank_of_isWord (h : isWord c = true) : isBlank c = false := by
  by_cases hascii : c.toNat < 0x80
  · have hall : ∀ n < 0x80, isWord (Char.ofNat n) = true → isBlank (Char.ofNat n) = false := by
      decide +kernel
    rw [← Char.ofNat_toNat c] at h ⊢
    exact hall _ hascii h
  · have hdisjoint : ∀ b ∈ blankRanges, ∀ r ∈ wordRanges, r.2 < b.1 ∨ b.2 < r.1 := by
      decide +kernel
    rw [isWord, if_neg hascii] at h
    obtain ⟨r, hr, hle, hge⟩ := inRanges_eq_true.1 h
    by_contra hblank
    rw [Bool.not_eq_false] at hblank
    obtain ⟨b, hb, hle', hge'⟩ := inRanges_eq_true.1 hblank
    have hapart := hdisjoint b hb r hr
    omega

/-! ## 2. Trimming -/

theorem trimStart_append_of_isBlank (h : IsBlank s) : trimStart (s ++ t) = trimStart t :=
  List.dropWhile_append_of_pos h

theorem trimStart_cons (h : isBlank c = false) : trimStart (c :: t) = c :: t :=
  List.dropWhile_cons_of_neg (by simp [h])

theorem trimStart_eq_nil_iff : trimStart t = [] ↔ IsBlank t := List.dropWhile_eq_nil_iff

theorem isBlank_of_trimStart (h : trimStart s = c :: t) : isBlank c = false := by
  have hhead := List.head?_dropWhile_not isBlank s
  rw [show s.dropWhile isBlank = c :: t from h] at hhead
  simpa using hhead

/-- A text is some blanks and then what is left when its start is trimmed. -/
theorem exists_trimStart (t : List Char) : ∃ b, IsBlank b ∧ t = b ++ trimStart t :=
  ⟨t.takeWhile isBlank, fun _ hc => List.mem_takeWhile_imp hc,
    (List.takeWhile_append_dropWhile).symm⟩

theorem trimEnd_append_cons (h : isBlank c = false) :
    trimEnd (s ++ c :: t) = s ++ c :: trimEnd t := by
  have hdrop : (t.reverse ++ c :: s.reverse).dropWhile isBlank
      = t.reverse.dropWhile isBlank ++ c :: s.reverse := by
    rw [List.dropWhile_append]
    split
    · rename_i hempty
      rw [List.isEmpty_iff.1 hempty, List.nil_append]
      exact trimStart_cons h
    · rfl
  simp [trimEnd, dropEndWhile, hdrop]

theorem trimEnd_append_of_isBlank (h : IsBlank t) : trimEnd (s ++ t) = trimEnd s := by
  have hblank : IsBlank t.reverse := fun c hc => h c (List.mem_reverse.1 hc)
  rw [trimEnd, dropEndWhile, List.reverse_append, List.dropWhile_append_of_pos hblank]
  rfl

/-- A text is what is left when its end is trimmed, and then some blanks. -/
theorem exists_trimEnd (t : List Char) : ∃ b, IsBlank b ∧ t = trimEnd t ++ b := by
  obtain ⟨b, hb, heq⟩ := exists_trimStart t.reverse
  refine ⟨b.reverse, fun c hc => hb c (List.mem_reverse.1 hc), ?_⟩
  have hreverse := congrArg List.reverse heq
  rwa [List.reverse_reverse, List.reverse_append] at hreverse

theorem trim_append_of_isBlank (h : IsBlank t) : trim (s ++ t) = trim s := by
  rw [trim, trim, trimStart, trimStart, List.dropWhile_append]
  split
  · rename_i hempty
    rw [List.isEmpty_iff.1 hempty, List.dropWhile_eq_nil_iff.2 h]
  · exact trimEnd_append_of_isBlank h

theorem trim_of_isBlank_append (h : IsBlank s) : trim (s ++ t) = trim t := by
  rw [trim, trimStart_append_of_isBlank h, trim]

theorem trim_trimEnd (t : List Char) : trim (trimEnd t) = trim t := by
  obtain ⟨b, hb, heq⟩ := exists_trimEnd t
  conv_rhs => rw [heq]
  exact (trim_append_of_isBlank hb).symm

/-- A text is what is left when it is trimmed, with some blanks around it. -/
theorem exists_trim (t : List Char) : ∃ b b', IsBlank b ∧ IsBlank b' ∧ t = b ++ (trim t ++ b') := by
  obtain ⟨b, hb, heq⟩ := exists_trimStart t
  obtain ⟨b', hb', heq'⟩ := exists_trimEnd (trimStart t)
  refine ⟨b, b', hb, hb', ?_⟩
  calc t = b ++ trimStart t := heq
    _ = b ++ (trim t ++ b') := congrArg (b ++ ·) heq'

theorem trim_trim (t : List Char) : trim (trim t) = trim t := by
  obtain ⟨b, b', hb, hb', heq⟩ := exists_trim t
  conv_rhs => rw [heq, trim_of_isBlank_append hb, trim_append_of_isBlank hb']

theorem trim_eq_nil_iff : trim t = [] ↔ IsBlank t := by
  constructor
  · intro h
    obtain ⟨b, hb, heq⟩ := exists_trimStart t
    obtain ⟨b', hb', heq'⟩ := exists_trimEnd (trimStart t)
    have hrest : trimStart t = b' :=
      calc trimStart t = trim t ++ b' := heq'
        _ = b' := by rw [h, List.nil_append]
    rw [heq, hrest]
    exact fun c hc => (List.mem_append.1 hc).elim (hb c) (hb' c)
  · intro h
    rw [trim, trimStart_eq_nil_iff.2 h]
    rfl

/-- A text that is trimmed already begins with a character that is not blank. -/
theorem exists_cons_of_trim_eq_self (h : trim t = t) (hne : t ≠ []) :
    ∃ c rest, t = c :: rest ∧ isBlank c = false := by
  cases hs : trimStart t with
  | nil =>
    rw [trim, hs] at h
    exact absurd h.symm hne
  | cons c rest =>
    have hc := isBlank_of_trimStart hs
    refine ⟨c, trimEnd rest, ?_, hc⟩
    calc t = trimEnd (c :: rest) := by rw [← hs]; exact h.symm
      _ = c :: trimEnd rest := trimEnd_append_cons (s := []) hc

/-- A text that is trimmed already ends with a character that is not blank. -/
theorem exists_concat_of_trim_eq_self (h : trim t = t) (hne : t ≠ []) :
    ∃ rest c, t = rest ++ [c] ∧ isBlank c = false := by
  obtain rfl | ⟨rest, c, rfl⟩ := List.eq_nil_or_concat' t
  · exact absurd rfl hne
  · refine ⟨rest, c, rfl, Bool.eq_false_iff.2 fun hc => ?_⟩
    rw [trim_append_of_isBlank (List.forall_mem_singleton.2 hc)] at h
    obtain ⟨b, b', -, -, heq⟩ := exists_trim rest
    have hlength := congrArg List.length heq
    rw [h] at hlength
    simp only [List.length_append, List.length_singleton] at hlength
    omega

/-- A text that begins and ends with characters that are not blank is trimmed already. -/
theorem trim_eq_self (hfirst : ∃ c rest, t = c :: rest ∧ isBlank c = false)
    (hlast : ∃ rest c, t = rest ++ [c] ∧ isBlank c = false) : trim t = t := by
  obtain ⟨c, rest, hcons, hc⟩ := hfirst
  obtain ⟨init, d, hconcat, hd⟩ := hlast
  have hstart : trimStart t = t := by rw [hcons, trimStart_cons hc]
  calc trim t = trimEnd (init ++ [d]) := by rw [trim, hstart, hconcat]
    _ = t := by rw [trimEnd_append_cons hd, hconcat]; rfl

theorem isBlankLine_iff : isBlankLine t = true ↔ IsBlank t := by
  rw [isBlankLine, List.isEmpty_iff, trim_eq_nil_iff]

/-! ## 3. Indentation -/

theorem indentation_append_of_isBlank (h : IsBlank s) :
    indentation (s ++ t) = s.length + indentation t := by
  rw [indentation, List.takeWhile_append_of_pos h, List.length_append]
  rfl

theorem indentation_cons (h : isBlank c = false) : indentation (c :: t) = 0 := by
  rw [indentation, List.takeWhile_cons_of_neg (by simp [h]), List.length_nil]

/-- What follows a character that is not blank does not count for the indentation. -/
theorem indentation_append_of_not_isBlank (h : ¬ IsBlank s) :
    indentation (s ++ t) = indentation s := by
  obtain ⟨b, hb, heq⟩ := exists_trimStart s
  cases hs : trimStart s with
  | nil => exact absurd (trimStart_eq_nil_iff.1 hs) h
  | cons c rest =>
    have hc := isBlank_of_trimStart hs
    rw [heq, hs, List.append_assoc, indentation_append_of_isBlank hb,
      indentation_append_of_isBlank hb, List.cons_append, indentation_cons hc, indentation_cons hc]

/-! ## 4. Pieces -/

theorem joinWith_cons_cons (sep s t : List Char) (more : List (List Char)) :
    joinWith sep (s :: t :: more) = s ++ sep ++ joinWith sep (t :: more) := rfl

theorem joinWith_append {sep : List Char} {pieces pieces' : List (List Char)} (h : pieces ≠ [])
    (h' : pieces' ≠ []) :
    joinWith sep (pieces ++ pieces') = joinWith sep pieces ++ sep ++ joinWith sep pieces' := by
  induction pieces with
  | nil => exact absurd rfl h
  | cons piece more ih =>
    cases more with
    | nil =>
      cases pieces' with
      | nil => exact absurd rfl h'
      | cons => rfl
    | cons next more =>
      rw [List.cons_append, List.cons_append, joinWith_cons_cons, ← List.cons_append,
        ih (by simp), joinWith_cons_cons]
      simp only [List.append_assoc]

theorem isBlank_joinWith {sep : List Char} {pieces : List (List Char)} (hsep : IsBlank sep)
    (h : ∀ piece ∈ pieces, IsBlank piece) : IsBlank (joinWith sep pieces) := by
  induction pieces with
  | nil => exact isBlank_nil
  | cons piece more ih =>
    obtain ⟨hpiece, hmore⟩ := List.forall_mem_cons.1 h
    cases more with
    | nil => exact hpiece
    | cons next more =>
      rw [joinWith_cons_cons]
      exact List.forall_mem_append.2 ⟨List.forall_mem_append.2 ⟨hpiece, hsep⟩, ih hmore⟩

theorem mem_joinWith {sep piece : List Char} {pieces : List (List Char)} (h : piece ∈ pieces)
    (hc : c ∈ piece) : c ∈ joinWith sep pieces := by
  induction pieces with
  | nil => cases h
  | cons first more ih =>
    cases more with
    | nil => rwa [← List.mem_singleton.1 h]
    | cons next more =>
      rw [joinWith_cons_cons, List.mem_append, List.mem_append]
      rcases List.mem_cons.1 h with rfl | h
      · exact .inl (.inl hc)
      · exact .inr (ih h)

theorem joinWith_concat_append (sep : List Char) (pieces : List (List Char)) (s t : List Char) :
    joinWith sep (pieces ++ [s ++ t]) = joinWith sep (pieces ++ [s]) ++ t := by
  cases pieces with
  | nil => rfl
  | cons piece pieces =>
    rw [joinWith_append (by simp) (by simp), joinWith_append (by simp) (by simp)]
    exact (List.append_assoc _ _ _).symm

/-- What follows the separator counts as the beginning of the next piece. -/
theorem joinWith_gap (sep gap first : List Char) (more : List (List Char)) :
    joinWith (sep ++ gap) (first :: more) = joinWith sep (first :: more.map (gap ++ ·)) := by
  induction more generalizing first with
  | nil => rfl
  | cons next more ih =>
    rw [joinWith_cons_cons, List.map_cons, joinWith_cons_cons, ih next]
    cases more <;> simp [joinWith]

theorem mem_of_mem_joinWith {sep : List Char} {pieces : List (List Char)}
    (h : c ∈ joinWith sep pieces) : c ∈ sep ∨ ∃ piece ∈ pieces, c ∈ piece := by
  induction pieces with
  | nil => cases h
  | cons piece pieces ih =>
    cases pieces with
    | nil => exact .inr ⟨piece, List.mem_cons_self, h⟩
    | cons next more =>
      rw [joinWith_cons_cons, List.mem_append, List.mem_append] at h
      rcases h with (h | h) | h
      · exact .inr ⟨piece, List.mem_cons_self, h⟩
      · exact .inl h
      · exact (ih h).imp_right fun ⟨q, hq, hc⟩ => ⟨q, List.mem_cons_of_mem _ hq, hc⟩

theorem joinWith_splitOn (sep : Char) (t : List Char) : joinWith [sep] (splitOn sep t) = t := by
  rw [joinWith_eq, splitOn_eq, List.intercalate_splitOn]

theorem mem_of_mem_splitOn {sep : Char} {piece : List Char} (h : piece ∈ splitOn sep t)
    (hc : c ∈ piece) : c ∈ t := by
  rw [← joinWith_splitOn sep t]
  exact mem_joinWith h hc

theorem splitOn_joinWith_cons {sep : Char} {ls : List (List Char)} (h : ∀ l ∈ ls, sep ∉ l) :
    splitOn sep (joinWith [sep] (t :: ls)) = splitOn sep t ++ ls := by
  cases ls with
  | nil => rw [List.append_nil, joinWith]
  | cons l ls =>
    rw [joinWith_cons_cons, List.append_assoc, splitOn_eq, List.singleton_append,
      List.splitOn_append_cons_self, joinWith_eq, List.splitOn_intercalate sep h (by simp),
      splitOn_eq]

theorem splitAtFirst_append {sep : Char} (h : sep ∉ s) :
    splitAtFirst [sep] (s ++ sep :: t) = some (s, t) := by
  induction s with
  | nil => simp [splitAtFirst, dropStart?]
  | cons c s ih =>
    rw [List.mem_cons, not_or] at h
    rw [List.cons_append, splitAtFirst, dropStart?, if_neg h.1, ih h.2]
    rfl

theorem splitAtFirst_eq_none {mark : List Char} (hmark : mark ≠ []) (h : ¬ mark <:+: t) :
    splitAtFirst mark t = none := by
  induction t with
  | nil => rw [splitAtFirst, if_neg hmark]
  | cons c t ih =>
    have hstart : dropStart? mark (c :: t) = none := by
      refine Option.eq_none_iff_forall_not_mem.2 fun rest hrest => h ?_
      exact ⟨[], rest, (dropStart?_eq_some.1 hrest).symm⟩
    have hrest := ih fun hin => h (hin.trans (List.infix_cons (List.infix_refl t)))
    rw [splitAtFirst, hstart, hrest]
    rfl

/-- A text is cut at the first colon between blanks. -/
theorem splitAtFirst_colon (h : ':' ∉ s) :
    splitAtFirst [' ', ':', ' '] (s ++ ' ' :: ':' :: ' ' :: t) = some (s, t) := by
  induction s with
  | nil => rfl
  | cons c s ih =>
    rw [List.mem_cons, not_or] at h
    have hstart : dropStart? [' ', ':', ' '] (c :: (s ++ ' ' :: ':' :: ' ' :: t)) = none := by
      refine Option.eq_none_iff_forall_not_mem.2 fun rest hrest => ?_
      have htail := (List.cons.inj (dropStart?_eq_some.1 hrest)).2
      cases s with
      | nil => cases htail
      | cons d s => exact h.2 (by simp [(List.cons.inj htail).1])
    rw [List.cons_append, splitAtFirst, hstart, ih h.2]
    rfl

/-- Blank lines at the end of a text are trimmed away. -/
theorem trim_joinWith_append {pieces blanks : List (List Char)}
    (h : ∀ l ∈ blanks, IsBlank l) :
    trim (joinWith ['\n'] (pieces ++ blanks)) = trim (joinWith ['\n'] pieces) := by
  have hfeed : IsBlank ['\n'] := by decide
  have hblanks := isBlank_joinWith hfeed h
  by_cases hpieces : pieces = []
  · rw [hpieces, List.nil_append, trim_eq_nil_iff.2 hblanks]
    rfl
  · by_cases hnone : blanks = []
    · rw [hnone, List.append_nil]
    · rw [joinWith_append hpieces hnone, List.append_assoc]
      exact trim_append_of_isBlank (List.forall_mem_append.2 ⟨hfeed, hblanks⟩)

/-! ## 5. Lines -/

theorem exists_of_mem_forall₂ {α β : Type} {R : α → β → Prop} {as : List α} {bs : List β} {b : β}
    (h : List.Forall₂ R as bs) (hb : b ∈ bs) : ∃ a ∈ as, R a b := by
  induction h with
  | nil => cases hb
  | cons hr _ ih =>
    rcases List.mem_cons.1 hb with rfl | hb
    · exact ⟨_, List.mem_cons_self, hr⟩
    · obtain ⟨a, ha, hr'⟩ := ih hb
      exact ⟨a, List.mem_cons_of_mem _ ha, hr'⟩

theorem not_mem_of_mem_replicate_nil {n : Nat} (h : line ∈ List.replicate n []) : c ∉ line := by
  rw [List.eq_of_mem_replicate h]
  exact List.not_mem_nil

/-- That a line of a text is read as another: a carriage return at its end may have been dropped. -/
def ReadAs (line read : List Char) : Prop := read = line ∨ read = dropReturn line

theorem exists_dropReturn (t : List Char) : ∃ b, IsBlank b ∧ t = dropReturn t ++ b := by
  unfold dropReturn
  split
  · rename_i hlast
    obtain ⟨s, rfl⟩ := List.getLast?_eq_some_iff.1 hlast
    exact ⟨['\r'], by decide, by simp⟩
  · exact ⟨[], isBlank_nil, by simp⟩

theorem dropReturn_of_not_mem (h : '\r' ∉ t) : dropReturn t = t := by
  rw [dropReturn, if_neg fun hlast => h (List.mem_of_getLast? hlast)]

namespace ReadAs

theorem exists_append (h : ReadAs line read) : ∃ b, IsBlank b ∧ line = read ++ b := by
  rcases h with rfl | rfl
  · exact ⟨[], isBlank_nil, by simp⟩
  · exact exists_dropReturn line

theorem trim_eq (h : ReadAs line read) : trim read = trim line := by
  obtain ⟨b, hb, rfl⟩ := h.exists_append
  exact (trim_append_of_isBlank hb).symm

theorem isBlankLine_eq (h : ReadAs line read) : isBlankLine read = isBlankLine line := by
  rw [isBlankLine, isBlankLine, h.trim_eq]

theorem indentation_eq (h : ReadAs line read) (hline : isBlankLine line = false) :
    indentation read = indentation line := by
  have hread : ¬ IsBlank read := by
    rw [← isBlankLine_iff, h.isBlankLine_eq, hline]
    decide
  obtain ⟨b, hb, rfl⟩ := h.exists_append
  exact (indentation_append_of_not_isBlank hread).symm

/-- Lines without a carriage return are read as they are. -/
theorem eq_of_not_mem (h : ReadAs line read) (hline : '\r' ∉ line) : read = line := by
  rcases h with h | h
  · exact h
  · rw [h, dropReturn_of_not_mem hline]

theorem map_trim_eq {ls reads : List (List Char)} (h : List.Forall₂ ReadAs ls reads) :
    reads.map trim = ls.map trim := by
  induction h with
  | nil => rfl
  | cons hr _ ih => rw [List.map_cons, List.map_cons, hr.trim_eq, ih]

/-- Lines one after another are read one after another. -/
theorem exists_of_append {ls ls' reads : List (List Char)}
    (h : List.Forall₂ ReadAs (ls ++ ls') reads) :
    ∃ rs rs', reads = rs ++ rs' ∧ List.Forall₂ ReadAs ls rs ∧ List.Forall₂ ReadAs ls' rs' := by
  induction ls generalizing reads with
  | nil => exact ⟨[], reads, rfl, .nil, h⟩
  | cons l ls ih =>
    obtain ⟨r, rest, hr, hrest, rfl⟩ := List.forall₂_cons_left_iff.1 h
    obtain ⟨rs, rs', rfl, hrs, hrs'⟩ := ih hrest
    exact ⟨r :: rs, rs', rfl, .cons hr hrs, hrs'⟩

theorem eq_of_forall_not_mem {ls reads : List (List Char)} (h : List.Forall₂ ReadAs ls reads)
    (hls : ∀ l ∈ ls, '\r' ∉ l) : reads = ls := by
  induction h with
  | nil => rfl
  | cons hr _ ih =>
    rw [List.forall_mem_cons] at hls
    rw [hr.eq_of_not_mem hls.1, ih hls.2]

end ReadAs

/-- The lines before a line feed are closed, each with a carriage return or without. -/
theorem lines_append_cons (s t : List Char) :
    lines (s ++ '\n' :: t) = (splitOn '\n' s).map dropReturn ++ lines t := by
  have hne : splitOn '\n' t ≠ [] := by
    rw [splitOn_eq]
    exact List.splitOn_ne_nil _ _
  have hsplit : splitOn '\n' (s ++ '\n' :: t) = splitOn '\n' s ++ splitOn '\n' t := by
    rw [splitOn_eq, splitOn_eq, splitOn_eq, List.splitOn_append_cons_self]
  rw [lines, lines, hsplit, List.dropLast_append_of_ne_nil hne,
    List.getLast?_append_of_ne_nil _ hne, List.map_append, List.append_assoc]

/-- The lines of a text are read off the pieces between its line feeds, all but an empty last
one. -/
theorem exists_lines (t : List Char) :
    ∃ reads, List.Forall₂ ReadAs (splitOn '\n' t) reads
      ∧ (lines t = reads ∨ reads = lines t ++ [[]]) := by
  have hne : splitOn '\n' t ≠ [] := by
    rw [splitOn_eq]
    exact List.splitOn_ne_nil _ _
  have hreads : List.Forall₂ ReadAs ((splitOn '\n' t).dropLast ++ [(splitOn '\n' t).getLast hne])
      ((splitOn '\n' t).dropLast.map dropReturn ++ [(splitOn '\n' t).getLast hne]) := by
    refine List.rel_append ?_ (.cons (.inl rfl) .nil)
    exact List.forall₂_map_right_iff.2 (List.forall₂_same.2 fun _ _ => .inr rfl)
  rw [List.dropLast_concat_getLast hne] at hreads
  refine ⟨_, hreads, ?_⟩
  rw [lines, List.getLast?_eq_some_getLast hne, Option.getD_some]
  split
  · rename_i hlast
    rw [hlast, List.append_nil]
    exact .inr rfl
  · exact .inl rfl

/-- When a text is trimmed it does not matter whether its last line was closed. -/
theorem trim_joinWith_lines (t : List Char) :
    trim (joinWith ['\n'] (lines t))
      = trim (joinWith ['\n'] ((splitOn '\n' t).map dropReturn)) := by
  obtain hnil | ⟨closed, last, hsplit⟩ := List.eq_nil_or_concat' (splitOn '\n' t)
  · rw [splitOn_eq] at hnil
    exact absurd hnil (List.splitOn_ne_nil _ _)
  rw [lines, hsplit, List.dropLast_concat, List.getLast?_concat, Option.getD_some, List.map_append,
    List.map_singleton]
  split
  · rename_i hlast
    rw [hlast, show dropReturn [] = [] from rfl, List.append_nil,
      trim_joinWith_append (List.forall_mem_singleton.2 isBlank_nil)]
  · obtain ⟨b, hb, heq⟩ := exists_dropReturn last
    have hjoin : joinWith ['\n'] (closed.map dropReturn ++ [last])
        = joinWith ['\n'] (closed.map dropReturn ++ [dropReturn last]) ++ b := by
      rw [← joinWith_concat_append, ← heq]
    rw [hjoin, trim_append_of_isBlank hb]

end ApiSurface.Text

namespace ApiSurface.Docstring

/-! ## 6. Blocks -/

/-- A list is cut where its first element is that fails. -/
theorem cut_append {α : Type} {p : α → Bool} {before after : List α}
    (hbefore : ∀ a ∈ before, p a = true) (hafter : ∀ a ∈ after.head?, p a = false) :
    (before ++ after).takeWhile p = before ∧ (before ++ after).dropWhile p = after := by
  rw [List.takeWhile_append_of_pos hbefore, List.dropWhile_append_of_pos hbefore]
  cases after with
  | nil => exact ⟨List.append_nil before, rfl⟩
  | cons a after =>
    have ha : ¬ p a = true := by simp [hafter a rfl]
    rw [List.takeWhile_cons_of_neg ha, List.dropWhile_cons_of_neg ha]
    exact ⟨List.append_nil before, rfl⟩

/-- One more element at the end of a list, which does not fail, is behind the cut, or everything is
before it. -/
theorem cut_concat {α : Type} {p : α → Bool} {l : List α} {a : α} (h : p a = true) :
    ((l ++ [a]).takeWhile p = l.takeWhile p ∧ (l ++ [a]).dropWhile p = l.dropWhile p ++ [a])
      ∨ ((l ++ [a]).takeWhile p = l.takeWhile p ++ [a] ∧ (l ++ [a]).dropWhile p = []
        ∧ l.dropWhile p = []) := by
  have hsplit := List.takeWhile_append_dropWhile (p := p) (l := l)
  have hbefore : ∀ b ∈ l.takeWhile p, p b = true := fun b hb => List.mem_takeWhile_imp hb
  cases hrest : l.dropWhile p with
  | nil =>
    rw [hrest, List.append_nil] at hsplit
    rw [hsplit] at hbefore ⊢
    have hall : ∀ b ∈ l ++ [a], p b = true :=
      List.forall_mem_append.2 ⟨hbefore, List.forall_mem_singleton.2 h⟩
    exact .inr ⟨List.takeWhile_eq_self_iff.2 hall, List.dropWhile_eq_nil_iff.2 hall, rfl⟩
  | cons b rest =>
    have hb : p b = false := by
      have hhead := List.head?_dropWhile_not p l
      rw [hrest] at hhead
      simpa using hhead
    have hnext : ∀ d ∈ (b :: (rest ++ [a])).head?, p d = false := by simp [hb]
    have hcut := cut_append hbefore hnext
    rw [hrest] at hsplit
    rw [← List.cons_append, ← List.append_assoc, hsplit] at hcut
    exact .inl hcut

/-- Lines that start entries are found again, with the lines between them. -/
theorem group_flatMap {starts : Line → Bool} {blocks : List (Line × List Line)}
    (h : ∀ b ∈ blocks, starts b.1 = true ∧ ∀ l ∈ b.2, starts l = false) :
    group starts (blocks.flatMap fun b => b.1 :: b.2) = blocks := by
  induction blocks with
  | nil => rw [List.flatMap_nil, group]
  | cons b blocks ih =>
    obtain ⟨⟨-, hmore⟩, hrest⟩ := List.forall_mem_cons.1 h
    have hnext : ∀ l ∈ (blocks.flatMap fun b => b.1 :: b.2).head?, (!starts l) = false := by
      cases blocks with
      | nil => simp
      | cons b' blocks => simp [(hrest b' List.mem_cons_self).1]
    obtain ⟨htake, hdrop⟩ := cut_append (fun l hl => by rw [hmore l hl]; rfl) hnext
    rw [List.flatMap_cons, List.cons_append, group, htake, hdrop, ih hrest]

theorem least_cons {n : Nat} {more : List Nat} (h : ∀ m ∈ more, n ≤ m) :
    Text.least (n :: more) = n := by
  rw [Text.least]
  induction more with
  | nil => rfl
  | cons m more ih =>
    rw [List.forall_mem_cons] at h
    have hmin : Nat.min n m = n := Nat.min_eq_left h.1
    rw [List.foldl_cons, hmin, ih h.2]

/-- That an entry starts at an indentation and goes on in deeper lines, none of them blank. -/
def IsBlock (base : Nat) (b : Line × List Line) : Prop :=
  (Text.isBlankLine b.1 = false ∧ Text.indentation b.1 = base)
    ∧ ∀ l ∈ b.2, Text.isBlankLine l = false ∧ base < Text.indentation l

section Blocks

variable {base : Nat} {blocks : List (Line × List Line)} {blanks : List Line}

theorem IsBlock.of_mem {b : Line × List Line} {l : Line} (h : IsBlock base b)
    (hl : l ∈ b.1 :: b.2) : Text.isBlankLine l = false ∧ base ≤ Text.indentation l := by
  obtain ⟨⟨hfilled, hfirst⟩, hmore⟩ := h
  rcases List.mem_cons.1 hl with rfl | hl
  · exact ⟨hfilled, hfirst.ge⟩
  · exact ⟨(hmore l hl).1, (hmore l hl).2.le⟩

theorem filled_blocks (h : ∀ b ∈ blocks, IsBlock base b)
    (hblanks : ∀ l ∈ blanks, Text.isBlankLine l = true) :
    filled ((blocks.flatMap fun b => b.1 :: b.2) ++ blanks)
      = blocks.flatMap fun b => b.1 :: b.2 := by
  have hblocks : ∀ l ∈ blocks.flatMap fun b => b.1 :: b.2, (!Text.isBlankLine l) = true := by
    intro l hl
    obtain ⟨b, hb, hl⟩ := List.mem_flatMap.1 hl
    rw [((h b hb).of_mem hl).1]
    rfl
  rw [filled, List.filter_append, List.filter_eq_self.2 hblocks,
    List.filter_eq_nil_iff.2 fun l hl => by simp [hblanks l hl], List.append_nil]

/-- The first line of blocks is at their base, and no other is above it. -/
theorem commonIndentation_blocks (h : ∀ b ∈ blocks, IsBlock base b)
    (hblanks : ∀ l ∈ blanks, Text.isBlankLine l = true) (hne : blocks ≠ []) :
    Text.commonIndentation ((blocks.flatMap fun b => b.1 :: b.2) ++ blanks) = base := by
  have hfilled := filled_blocks h hblanks
  cases blocks with
  | nil => exact absurd rfl hne
  | cons b blocks =>
    have hfirst := (h b List.mem_cons_self).1.2
    rw [Text.commonIndentation, ← filled, hfilled, List.flatMap_cons, List.cons_append,
      List.map_cons, hfirst]
    refine least_cons fun m hm => ?_
    obtain ⟨l, hl, rfl⟩ := List.mem_map.1 hm
    have hmem : l ∈ (b :: blocks).flatMap fun b => b.1 :: b.2 := List.mem_cons_of_mem _ hl
    obtain ⟨b', hb', hl⟩ := List.mem_flatMap.1 hmem
    exact ((h b' hb').of_mem hl).2

/-- The blocks of a section are found again, blank lines below them or not. -/
theorem group_blocks (h : ∀ b ∈ blocks, IsBlock base b)
    (hblanks : ∀ l ∈ blanks, Text.isBlankLine l = true) :
    group (atBase ((blocks.flatMap fun b => b.1 :: b.2) ++ blanks))
      (filled ((blocks.flatMap fun b => b.1 :: b.2) ++ blanks)) = blocks := by
  rw [filled_blocks h hblanks]
  refine group_flatMap fun b hb => ?_
  have hbase := commonIndentation_blocks h hblanks (List.ne_nil_of_mem hb)
  obtain ⟨⟨-, hfirst⟩, hmore⟩ := h b hb
  refine ⟨by rw [atBase, hbase, hfirst, beq_self_eq_true], fun l hl => ?_⟩
  rw [atBase, hbase]
  exact beq_false_of_ne (hmore l hl).2.ne'

/-- Above the first block there is nothing to drop. -/
theorem dropWhile_blocks (h : ∀ b ∈ blocks, IsBlock base b)
    (hblanks : ∀ l ∈ blanks, Text.isBlankLine l = true) :
    (filled ((blocks.flatMap fun b => b.1 :: b.2) ++ blanks)).dropWhile
        (fun l => !atBase ((blocks.flatMap fun b => b.1 :: b.2) ++ blanks) l)
      = filled ((blocks.flatMap fun b => b.1 :: b.2) ++ blanks) := by
  rw [filled_blocks h hblanks]
  cases blocks with
  | nil => rfl
  | cons b blocks =>
    have hbase := commonIndentation_blocks h hblanks (List.cons_ne_nil b blocks)
    have hfirst : atBase (((b :: blocks).flatMap fun b => b.1 :: b.2) ++ blanks) b.1 = true := by
      rw [atBase, hbase, (h b List.mem_cons_self).1.2, beq_self_eq_true]
    exact List.dropWhile_cons_of_neg (by rw [hfirst]; decide)

/-- That the lines of a block are read off those of another. -/
def BlockReadAs (written b : Line × List Line) : Prop :=
  Text.ReadAs written.1 b.1 ∧ List.Forall₂ Text.ReadAs written.2 b.2

theorem IsBlock.of_readAs {written b : Line × List Line} (hwritten : IsBlock base written)
    (h : BlockReadAs written b) : IsBlock base b := by
  obtain ⟨⟨hfilled, hbase⟩, hmore⟩ := hwritten
  refine ⟨⟨h.1.isBlankLine_eq.trans hfilled, (h.1.indentation_eq hfilled).trans hbase⟩,
    fun l hl => ?_⟩
  obtain ⟨line, hline, hread⟩ := Text.exists_of_mem_forall₂ h.2 hl
  obtain ⟨hfilled', hdeep⟩ := hmore line hline
  rw [hread.isBlankLine_eq, hread.indentation_eq hfilled']
  exact ⟨hfilled', hdeep⟩

/-- The lines of blocks are read in blocks, one for each. -/
theorem exists_blocks {written : List (Line × List Line)} {reads : List Line}
    (h : List.Forall₂ Text.ReadAs (written.flatMap fun b => b.1 :: b.2) reads) :
    ∃ blocks, List.Forall₂ BlockReadAs written blocks
      ∧ reads = blocks.flatMap fun b => b.1 :: b.2 := by
  induction written generalizing reads with
  | nil =>
    rw [List.forall₂_nil_left_iff.1 h]
    exact ⟨[], .nil, rfl⟩
  | cons w written ih =>
    rw [List.flatMap_cons] at h
    obtain ⟨mine, others, rfl, hmine, hothers⟩ := Text.ReadAs.exists_of_append h
    obtain ⟨first, more, hfirst, hmore, rfl⟩ := List.forall₂_cons_left_iff.1 hmine
    obtain ⟨blocks, hblocks, rfl⟩ := ih hothers
    exact ⟨(first, more) :: blocks, .cons ⟨hfirst, hmore⟩ hblocks, rfl⟩

/-- Blocks with empty lines below them are read as blocks and blank lines. -/
theorem exists_blocks_blanks {written : List (Line × List Line)} {gap : Nat} {reads : List Line}
    (hwritten : ∀ w ∈ written, IsBlock base w)
    (h : List.Forall₂ Text.ReadAs
      ((written.flatMap fun b => b.1 :: b.2) ++ List.replicate gap []) reads) :
    ∃ blocks blanks, List.Forall₂ BlockReadAs written blocks
      ∧ reads = (blocks.flatMap fun b => b.1 :: b.2) ++ blanks
      ∧ (∀ b ∈ blocks, IsBlock base b) ∧ ∀ l ∈ blanks, Text.isBlankLine l = true := by
  obtain ⟨mine, blanks, rfl, hmine, hblanks⟩ := Text.ReadAs.exists_of_append h
  obtain ⟨blocks, hblocks, rfl⟩ := exists_blocks hmine
  refine ⟨blocks, blanks, hblocks, rfl, fun b hb => ?_, fun l hl => ?_⟩
  · obtain ⟨w, hw, hread⟩ := Text.exists_of_mem_forall₂ hblocks hb
    exact (hwritten w hw).of_readAs hread
  · obtain ⟨line, hline, hread⟩ := Text.exists_of_mem_forall₂ hblanks hl
    rw [hread.isBlankLine_eq, List.eq_of_mem_replicate hline]
    rfl

end Blocks

/-! ## 7. Sections -/

theorem filled_concat_nil (body : List Line) : filled (body ++ [[]]) = filled body := by
  rw [filled, List.filter_append, show List.filter _ [[]] = [] from rfl, List.append_nil]
  rfl

theorem atBase_concat_nil (body : List Line) : atBase (body ++ [[]]) = atBase body := by
  funext l
  rw [atBase, atBase, Text.commonIndentation, Text.commonIndentation, ← filled, ← filled,
    filled_concat_nil]

theorem entriesOf_cons (kind : List Char → SectionKind) (read : List Line → List Entry)
    (s : Section) (more : List Section) (wanted : SectionKind) :
    entriesOf kind read (s :: more) wanted
      = (if kind s.heading = wanted then read s.body else [])
        ++ entriesOf kind read more wanted := by
  by_cases h : kind s.heading = wanted <;> simp [entriesOf, h]

/-- Sections of a kind are read as written if each is. -/
theorem entriesOf_written {α : Type} {kind : List Char → SectionKind} {kindOf : α → SectionKind}
    {read : List Line → List Entry} {entries : α → List Entry} {wanted : SectionKind}
    {written : List α} {found : List Section} {FoundAs : α → Section → Prop}
    (hkind : ∀ w s, FoundAs w s → kind s.heading = kindOf w)
    (hread : ∀ w s, FoundAs w s → kindOf w = wanted → read s.body = entries w)
    (h : List.Forall₂ FoundAs written found) :
    entriesOf kind read found wanted
      = (written.filter fun w => kindOf w = wanted).flatMap entries := by
  induction h with
  | nil => rfl
  | @cons w s written found hs _ ih =>
    have hbody : (if kind s.heading = wanted then read s.body else [])
        = if kindOf w = wanted then entries w else [] := by
      rw [hkind w s hs]
      exact if_ctx_congr Iff.rfl (hread w s hs) fun _ => rfl
    rw [entriesOf_cons, ih, hbody]
    by_cases hwanted : kindOf w = wanted <;> simp [hwanted]

theorem flatten_congr {ls ls' : List Line} (h : ls.map Text.trim = ls'.map Text.trim) :
    flatten ls = flatten ls' := by
  rw [flatten, flatten, h]

end ApiSurface.Docstring
