import ApiSurface.Proofs.DocstringLines
import Mathlib.Data.List.DropRight
import Mathlib.Order.Bounds.Defs
/-!
# What cleaning a docstring keeps

Cleaning takes blanks away and nothing else.  A line that is not blank stays: the first one trimmed,
the others without the blanks at their end and without as many characters at their start as the
least indented of them has blanks there.  These characters are blanks in every line, as no line has
fewer, so the text is never cut into.  Lines that are blank become empty, and at both ends of the
text they go.

No line that is left holds a line feed or ends with a blank, and the last one is not empty.  Hence
they are read again as the lines of the cleaned text, and the result can be said of the text itself
(`clean_keeps_text`).
-/

namespace ApiSurface.Text

variable {t line read : List Char}

/-! ## 1. Characters that are not blank -/

/-- The characters of a text that are not blank. -/
def nonBlank (t : List Char) : List Char := t.filter fun c => !isBlank c

theorem nonBlank_append (s t : List Char) : nonBlank (s ++ t) = nonBlank s ++ nonBlank t :=
  List.filter_append s t

theorem nonBlank_eq_nil_iff : nonBlank t = [] ↔ IsBlank t := by
  simp [nonBlank, IsBlank, List.filter_eq_nil_iff]

theorem nonBlank_trim (t : List Char) : nonBlank (trim t) = nonBlank t := by
  obtain ⟨b, b', hb, hb', heq⟩ := exists_trim t
  conv_rhs => rw [heq, nonBlank_append, nonBlank_append, nonBlank_eq_nil_iff.2 hb,
    nonBlank_eq_nil_iff.2 hb', List.nil_append, List.append_nil]

theorem nonBlank_trimEnd (t : List Char) : nonBlank (trimEnd t) = nonBlank t := by
  obtain ⟨b, hb, heq⟩ := exists_trimEnd t
  conv_rhs => rw [heq, nonBlank_append, nonBlank_eq_nil_iff.2 hb, List.append_nil]

/-- The characters within the indentation of a line are blanks. -/
theorem isBlank_take {n : Nat} (h : n ≤ indentation t) : IsBlank (t.take n) := by
  intro c hc
  have htake : t.take n = (t.takeWhile isBlank).take n := by
    conv_lhs => rw [← List.takeWhile_append_dropWhile (p := isBlank) (l := t)]
    exact List.take_append_of_le_length h
  rw [htake] at hc
  exact List.mem_takeWhile_imp (List.mem_of_mem_take hc)

theorem nonBlank_drop {n : Nat} (h : n ≤ indentation t) : nonBlank (t.drop n) = nonBlank t := by
  conv_rhs => rw [← List.take_append_drop n t, nonBlank_append,
    nonBlank_eq_nil_iff.2 (isBlank_take h), List.nil_append]

theorem nonBlank_joinWith {sep : List Char} (hsep : IsBlank sep) (pieces : List (List Char)) :
    nonBlank (joinWith sep pieces) = pieces.flatMap nonBlank := by
  induction pieces with
  | nil => rfl
  | cons piece more ih =>
    cases more with
    | nil => exact (List.append_nil _).symm
    | cons next more =>
      rw [joinWith_cons_cons, nonBlank_append, nonBlank_append, nonBlank_eq_nil_iff.2 hsep,
        List.append_nil, ih]
      rfl

theorem ReadAs.nonBlank_eq (h : ReadAs line read) : nonBlank read = nonBlank line := by
  obtain ⟨b, hb, rfl⟩ := h.exists_append
  rw [nonBlank_append, nonBlank_eq_nil_iff.2 hb, List.append_nil]

theorem ReadAs.flatMap_nonBlank_eq {ls reads : List (List Char)}
    (h : List.Forall₂ ReadAs ls reads) : reads.flatMap nonBlank = ls.flatMap nonBlank := by
  induction h with
  | nil => rfl
  | cons hr _ ih => rw [List.flatMap_cons, List.flatMap_cons, hr.nonBlank_eq, ih]

/-- Between the lines of a text there are only blanks. -/
theorem flatMap_nonBlank_lines (t : List Char) : (lines t).flatMap nonBlank = nonBlank t := by
  obtain ⟨reads, hreads, hlines⟩ := exists_lines t
  have hall : reads.flatMap nonBlank = nonBlank t :=
    calc reads.flatMap nonBlank = (splitOn '\n' t).flatMap nonBlank :=
          ReadAs.flatMap_nonBlank_eq hreads
      _ = nonBlank (joinWith ['\n'] (splitOn '\n' t)) := (nonBlank_joinWith (by decide) _).symm
      _ = nonBlank t := by rw [joinWith_splitOn]
  rcases hlines with hlines | hlines
  · rw [hlines, hall]
  · rw [← hall, hlines, List.flatMap_append]
    exact (List.append_nil _).symm

/-! ## 2. Tidy lines -/

theorem eq_false_of_mem_head?_dropWhile {α : Type} {p : α → Bool} {l : List α} {a : α}
    (h : a ∈ (l.dropWhile p).head?) : p a = false := by
  have hhead := List.head?_dropWhile_not p l
  rw [Option.mem_def.1 h] at hhead
  simpa using hhead

/-- That a text is a line as cleaning leaves it: without a line feed, and without a blank at its
end. -/
structure IsTidy (t : List Char) : Prop where
  oneLine : '\n' ∉ t
  closed : ∀ c ∈ t.getLast?, isBlank c = false

theorem IsTidy.of_trimEnd (h : '\n' ∉ t) : IsTidy (trimEnd t) where
  oneLine hmem := by
    obtain ⟨b, -, heq⟩ := exists_trimEnd t
    exact h (heq ▸ List.mem_append_left b hmem)
  closed c hc := by
    rw [trimEnd, dropEndWhile, List.getLast?_reverse] at hc
    exact eq_false_of_mem_head?_dropWhile hc

theorem IsTidy.dropReturn_eq (h : IsTidy t) : dropReturn t = t := by
  refine if_neg fun hlast => ?_
  have hblank := h.closed '\r' hlast
  revert hblank
  decide

theorem IsTidy.isBlankLine_eq (h : IsTidy t) (hne : t ≠ []) : isBlankLine t = false := by
  refine Bool.eq_false_iff.2 fun hblank => ?_
  have hlast := h.closed _ (List.getLast?_eq_some_getLast hne)
  rw [isBlankLine_iff.1 hblank _ (List.getLast_mem hne)] at hlast
  cases hlast

/-- Tidy lines with line feeds between them are the lines of the whole, unless the last one is
empty. -/
theorem lines_joinWith {ls : List (List Char)} (hls : ∀ l ∈ ls, IsTidy l)
    (hlast : ∀ l ∈ ls.getLast?, l ≠ []) : lines (joinWith ['\n'] ls) = ls := by
  obtain rfl | ⟨init, last, rfl⟩ := List.eq_nil_or_concat' ls
  · rfl
  have hsplit : splitOn '\n' (joinWith ['\n'] (init ++ [last])) = init ++ [last] := by
    rw [splitOn_eq, joinWith_eq,
      List.splitOn_intercalate _ (fun l hl => (hls l hl).oneLine) (by simp)]
  have hne : last ≠ [] := hlast last (by rw [List.getLast?_concat]; rfl)
  have hinit : init.map dropReturn = init :=
    (List.map_congr_left fun l hl => (hls l (List.mem_append_left _ hl)).dropReturn_eq).trans
      (List.map_id' init)
  rw [lines, hsplit, List.dropLast_concat, List.getLast?_concat, Option.getD_some, if_neg hne,
    hinit]

/-- Such a text begins with a line feed only if its first line is empty. -/
theorem head?_joinWith_ne {ls : List (List Char)} (hls : ∀ l ∈ ls, IsTidy l)
    (hfirst : ∀ l ∈ ls.head?, l ≠ []) : (joinWith ['\n'] ls).head? ≠ some '\n' := by
  cases ls with
  | nil => exact (Option.some_ne_none _).symm
  | cons first more =>
    obtain ⟨c, line, rfl⟩ := List.exists_cons_of_ne_nil (hfirst first rfl)
    have hc : c ≠ '\n' := fun heq => (hls _ List.mem_cons_self).oneLine (heq ▸ List.mem_cons_self)
    cases more with
    | nil => simpa [joinWith] using hc
    | cons next more => simpa [joinWith] using hc

/-- It ends with one only if its last line is empty. -/
theorem getLast?_joinWith_ne {ls : List (List Char)} (hls : ∀ l ∈ ls, IsTidy l)
    (hlast : ∀ l ∈ ls.getLast?, l ≠ []) : (joinWith ['\n'] ls).getLast? ≠ some '\n' := by
  obtain rfl | ⟨init, last, rfl⟩ := List.eq_nil_or_concat' ls
  · exact (Option.some_ne_none _).symm
  have hne : last ≠ [] := hlast last (by rw [List.getLast?_concat]; rfl)
  have hjoin := joinWith_concat_append ['\n'] init [] last
  rw [List.nil_append] at hjoin
  rw [hjoin, List.getLast?_append_of_ne_nil _ hne]
  exact fun hfeed => (hls last (by simp)).oneLine (List.mem_of_getLast? hfeed)

/-- No line of a text holds a line feed. -/
theorem feed_not_mem_of_mem_lines (h : line ∈ lines t) : '\n' ∉ line := by
  obtain ⟨reads, hreads, hlines⟩ := exists_lines t
  have hmem : line ∈ reads := by
    rcases hlines with hlines | hlines
    · rwa [← hlines]
    · rw [hlines]
      exact List.mem_append_left _ h
  obtain ⟨piece, hpiece, hread⟩ := exists_of_mem_forall₂ hreads hmem
  obtain ⟨b, -, rfl⟩ := hread.exists_append
  exact fun hfeed => not_mem_of_mem_splitOn hpiece (List.mem_append_left b hfeed)

end ApiSurface.Text

namespace ApiSurface.Docstring

open Text (isBlankLine indentation IsTidy nonBlank)

/-! ## 3. Edges -/

section Edges

variable {ls : List Line} {l : Line}

theorem filled_dropWhile (ls : List Line) : filled (ls.dropWhile List.isEmpty) = filled ls := by
  have hdropped : filled (ls.takeWhile List.isEmpty) = [] := by
    refine List.filter_eq_nil_iff.2 fun l hl => ?_
    rw [List.isEmpty_iff.1 (List.mem_takeWhile_imp hl)]
    decide
  conv_rhs => rw [← List.takeWhile_append_dropWhile (p := List.isEmpty) (l := ls), filled,
    List.filter_append, ← filled, ← filled, hdropped, List.nil_append]

theorem filled_reverse (ls : List Line) : filled ls.reverse = (filled ls).reverse :=
  List.filter_reverse

theorem filled_dropBlankEdges (ls : List Line) : filled (dropBlankEdges ls) = filled ls := by
  rw [dropBlankEdges, filled_reverse, filled_dropWhile, filled_reverse, List.reverse_reverse,
    filled_dropWhile]

theorem isPrefix_dropBlankEdges (ls : List Line) :
    dropBlankEdges ls <+: ls.dropWhile List.isEmpty :=
  List.rdropWhile_prefix List.isEmpty _

theorem mem_of_mem_dropBlankEdges (h : l ∈ dropBlankEdges ls) : l ∈ ls :=
  (List.dropWhile_sublist _).subset ((isPrefix_dropBlankEdges ls).subset h)

theorem ne_nil_of_mem_head? (h : l ∈ (dropBlankEdges ls).head?) : l ≠ [] := by
  obtain ⟨rest, hrest⟩ := isPrefix_dropBlankEdges ls
  have hhead : l ∈ (ls.dropWhile List.isEmpty).head? := by
    rw [← hrest, List.head?_append, Option.mem_def.1 h]
    rfl
  exact List.isEmpty_eq_false_iff.1 (Text.eq_false_of_mem_head?_dropWhile hhead)

theorem ne_nil_of_mem_getLast? (h : l ∈ (dropBlankEdges ls).getLast?) : l ≠ [] := by
  rw [dropBlankEdges, List.getLast?_reverse] at h
  exact List.isEmpty_eq_false_iff.1 (Text.eq_false_of_mem_head?_dropWhile h)

end Edges

/-! ## 4. Indentation -/

section Indentation

variable {ls : List Line} {l : Line} {indent : Nat}

theorem nonBlank_dedent (indent : Nat) (l : Line) : nonBlank (dedent indent l) = nonBlank l := by
  unfold dedent
  split
  · rename_i hle
    rw [Text.nonBlank_trimEnd, Text.nonBlank_drop hle]
  · exact Text.nonBlank_trim l

theorem isTidy_trim (h : '\n' ∉ l) : IsTidy (Text.trim l) :=
  .of_trimEnd fun hmem => h ((List.dropWhile_sublist _).subset hmem)

theorem isTidy_dedent (h : '\n' ∉ l) : IsTidy (dedent indent l) := by
  unfold dedent
  split
  · exact .of_trimEnd fun hmem => h (List.mem_of_mem_drop hmem)
  · exact isTidy_trim h

theorem isBlankLine_dedent (indent : Nat) (l : Line) :
    isBlankLine (dedent indent l) = isBlankLine l := by
  rw [Bool.eq_iff_iff, Text.isBlankLine_iff, Text.isBlankLine_iff, ← Text.nonBlank_eq_nil_iff,
    nonBlank_dedent, Text.nonBlank_eq_nil_iff]

/-- The least of some numbers is one of them and below all of them. -/
theorem isLeast_least (n : Nat) (more : List Nat) :
    IsLeast {m | m ∈ n :: more} (Text.least (n :: more)) := by
  rw [Text.least]
  induction more generalizing n with
  | nil => exact ⟨List.mem_singleton_self n, fun m hm => (List.mem_singleton.1 hm).ge⟩
  | cons m more ih =>
    obtain ⟨hmem, hlower⟩ := ih (Nat.min n m)
    have hfirst := hlower List.mem_cons_self
    rw [List.foldl_cons]
    refine ⟨?_, fun k hk => ?_⟩
    · rcases List.mem_cons.1 hmem with heq | hmem
      · rw [heq]
        rcases Nat.le_total n m with hle | hle
        · rw [show Nat.min n m = n from Nat.min_eq_left hle]
          exact List.mem_cons_self
        · rw [show Nat.min n m = m from Nat.min_eq_right hle]
          exact List.mem_cons_of_mem n List.mem_cons_self
      · exact List.mem_cons_of_mem n (List.mem_cons_of_mem m hmem)
    · rcases List.mem_cons.1 hk with rfl | hk
      · exact hfirst.trans (Nat.min_le_left k m)
      · rcases List.mem_cons.1 hk with rfl | hk
        · exact hfirst.trans (Nat.min_le_right n k)
        · exact hlower (List.mem_cons_of_mem _ hk)

theorem isLeast_commonIndentation (h : filled ls ≠ []) :
    IsLeast {n | ∃ l ∈ filled ls, indentation l = n} (Text.commonIndentation ls) := by
  obtain ⟨l, more, heq⟩ := List.exists_cons_of_ne_nil h
  have hleast := isLeast_least (indentation l) (more.map indentation)
  rw [← List.map_cons, ← heq] at hleast
  simp only [List.mem_map] at hleast
  exact hleast

end Indentation

/-! ## 5. Lines before the edges are cut -/

/-- The lines of a cleaned text before its edges are cut. -/
def tidied (ls : List Line) : List Line :=
  (ls.take 1).map Text.trim
    ++ (ls.drop 1).map (dedent (Text.commonIndentation (ls.drop 1)))

theorem cleanLines_eq (ls : List Line) : cleanLines ls = dropBlankEdges (tidied ls) := by
  cases ls <;> rfl

section Cleaning

variable {t : List Char} {l : Line}

theorem isTidy_of_mem_tidied (h : l ∈ tidied (Text.lines t)) : IsTidy l := by
  rcases List.mem_append.1 h with h | h
  · obtain ⟨line, hline, rfl⟩ := List.mem_map.1 h
    exact isTidy_trim (Text.feed_not_mem_of_mem_lines (List.mem_of_mem_take hline))
  · obtain ⟨line, hline, rfl⟩ := List.mem_map.1 h
    exact isTidy_dedent (Text.feed_not_mem_of_mem_lines (List.mem_of_mem_drop hline))

theorem isTidy_of_mem_cleanLines (h : l ∈ cleanLines (Text.lines t)) : IsTidy l := by
  rw [cleanLines_eq] at h
  exact isTidy_of_mem_tidied (mem_of_mem_dropBlankEdges h)

theorem flatMap_nonBlank_filled (ls : List Line) :
    (filled ls).flatMap nonBlank = ls.flatMap nonBlank := by
  induction ls with
  | nil => rfl
  | cons l ls ih =>
    rw [filled, List.filter_cons, List.flatMap_cons, ← ih]
    split
    · rfl
    · rename_i hblank
      have hnone : nonBlank l = [] := by
        rw [Text.nonBlank_eq_nil_iff, ← Text.isBlankLine_iff]
        simpa using hblank
      rw [hnone]
      rfl

theorem flatMap_nonBlank_tidied (ls : List Line) :
    (tidied ls).flatMap nonBlank = ls.flatMap nonBlank := by
  conv_rhs => rw [← List.take_append_drop 1 ls]
  simp only [tidied, List.flatMap_append, List.flatMap_map, Text.nonBlank_trim, nonBlank_dedent]

theorem filled_map {f : Line → Line} (hf : ∀ l, isBlankLine (f l) = isBlankLine l)
    (ls : List Line) : filled (ls.map f) = (filled ls).map f := by
  rw [filled, List.filter_map]
  simp only [Function.comp_def, hf]
  rfl

theorem isBlankLine_trim (l : Line) : isBlankLine (Text.trim l) = isBlankLine l := by
  rw [isBlankLine, isBlankLine, Text.trim_trim]

theorem filled_tidied (ls : List Line) :
    filled (tidied ls) = (filled (ls.take 1)).map Text.trim
      ++ (filled (ls.drop 1)).map
        fun l => Text.trimEnd (l.drop (Text.commonIndentation (ls.drop 1))) := by
  -- Only where a line is blank can it have less indentation than the others.
  have hlater : (filled (ls.drop 1)).map (dedent (Text.commonIndentation (ls.drop 1)))
      = (filled (ls.drop 1)).map
        fun l => Text.trimEnd (l.drop (Text.commonIndentation (ls.drop 1))) := by
    refine List.map_congr_left fun l hl => if_pos ?_
    exact (isLeast_commonIndentation (List.ne_nil_of_mem hl)).2 ⟨l, hl, rfl⟩
  rw [tidied, filled, List.filter_append, ← filled, ← filled, filled_map isBlankLine_trim,
    filled_map (isBlankLine_dedent _), hlater]

end Cleaning

/-! ## 6. The result -/

/-- **Cleaning loses no text.**  The characters of a text that are not blank are kept in their
order.  Its lines that are not blank are kept in their order too: the first line of the text
trimmed, every later one without the blanks at its end and without as many characters at its start
as the least indented of them has blanks.  What is left neither begins nor ends with a blank
line. -/
theorem clean_keeps_text (t : List Char) :
    nonBlank (clean t) = nonBlank t
    ∧ (∃ indent,
        (filled ((Text.lines t).drop 1) ≠ [] →
          IsLeast {n | ∃ l ∈ filled ((Text.lines t).drop 1), indentation l = n} indent)
        ∧ filled (Text.lines (clean t))
          = (filled ((Text.lines t).take 1)).map Text.trim
            ++ (filled ((Text.lines t).drop 1)).map fun l => Text.trimEnd (l.drop indent))
    ∧ (∀ l ∈ (Text.lines (clean t)).head?, isBlankLine l = false)
    ∧ (∀ l ∈ (Text.lines (clean t)).getLast?, isBlankLine l = false)
    ∧ (clean t).head? ≠ some '\n' ∧ (clean t).getLast? ≠ some '\n' := by
  have htidy : ∀ l ∈ cleanLines (Text.lines t), IsTidy l := fun l hl => isTidy_of_mem_cleanLines hl
  have hfirst : ∀ l ∈ (cleanLines (Text.lines t)).head?, l ≠ [] := by
    rw [cleanLines_eq]
    exact fun l hl => ne_nil_of_mem_head? hl
  have hlast : ∀ l ∈ (cleanLines (Text.lines t)).getLast?, l ≠ [] := by
    rw [cleanLines_eq]
    exact fun l hl => ne_nil_of_mem_getLast? hl
  have hlines : Text.lines (clean t) = cleanLines (Text.lines t) :=
    Text.lines_joinWith htidy hlast
  have hfilled : filled (cleanLines (Text.lines t)) = filled (tidied (Text.lines t)) := by
    rw [cleanLines_eq, filled_dropBlankEdges]
  refine ⟨?_, ⟨_, isLeast_commonIndentation, ?_⟩, ?_, ?_, ?_, ?_⟩
  · calc nonBlank (clean t) = (cleanLines (Text.lines t)).flatMap nonBlank :=
          Text.nonBlank_joinWith (by decide) _
      _ = (tidied (Text.lines t)).flatMap nonBlank := by
          rw [← flatMap_nonBlank_filled, hfilled, flatMap_nonBlank_filled]
      _ = nonBlank t := by rw [flatMap_nonBlank_tidied, Text.flatMap_nonBlank_lines]
  · rw [hlines, hfilled, filled_tidied]
  · rw [hlines]
    exact fun l hl => (htidy l (List.mem_of_mem_head? hl)).isBlankLine_eq (hfirst l hl)
  · rw [hlines]
    exact fun l hl => (htidy l (List.mem_of_getLast? hl)).isBlankLine_eq (hlast l hl)
  · exact Text.head?_joinWith_ne htidy hfirst
  · exact Text.getLast?_joinWith_ne htidy hlast

-- Indentation is counted in characters: two no-break spaces are as much as two spaces.
example : clean "  Title.\n\u00a0\u00a0é indented\n \n  x\n   ".toList
    = "Title.\né indented\n\nx".toList := by
  decide +kernel

end ApiSurface.Docstring
