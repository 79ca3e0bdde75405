import ApiSurface.Proofs.NumpyHeaders
/-!
# Numpy sections read back

A docstring in this style is a summary and sections of entries.  A section is written as its
heading, an underline and its entries, none of them indented, with the lines that describe an entry
at four blanks below its head (`render`).  Reading it gives the summary and the entries again.

A head may give several names and one type, or under `Returns` a type alone.  Since headers are
known by the underlines below them, no other line may look like an underline; beyond that,
descriptions may be anything, and a type anything that is written on one line.  Every condition on
what is written is a field of the structures of section 1.
-/

namespace ApiSurface.Docstring.Numpy

/-! ## 1. What is written -/

/-- A text in which no line is an underline. -/
structure WrittenSummary where
  text : List Char
  not_underline : ∀ l ∈ Text.splitOn '\n' text, ¬ IsUnderline l

/-- The lines of a description. -/
structure WrittenProse where
  lines : List Line
  line : ∀ l ∈ lines, '\n' ∉ l
  filled : ∀ l ∈ lines, ¬ Text.IsBlank l
  not_underline : ∀ l ∈ lines, ¬ IsUnderline l

/-- The trimmed lines with one space between them. -/
def WrittenProse.text (p : WrittenProse) : List Char :=
  Text.joinWith [' '] (p.lines.map Text.trim)

/-- A name: word characters and stars. -/
structure WrittenName where
  text : List Char
  ne_nil : text ≠ []
  isWord : ∀ c ∈ text, c = '*' ∨ Text.isWord c = true

/-- A type on one line. -/
structure WrittenType where
  text : List Char
  ne_nil : text ≠ []
  trimmed : Text.trim text = text
  line : '\n' ∉ text

/-- An entry of a section: its head and the lines below. -/
structure WrittenEntry where
  head : Line
  prose : WrittenProse
  ne_nil : head ≠ []
  trimmed : Text.trim head = head
  line : '\n' ∉ head
  not_underline : ¬ IsUnderline head

/-- `first, ..., last : type`. -/
structure WrittenNames where
  first : WrittenName
  more : List WrittenName
  type : WrittenType
  prose : WrittenProse

/-- `name : type` or a type alone. -/
inductive WrittenResult
  | named (name : WrittenName) (type : WrittenType) (prose : WrittenProse)
  | bare (type : WrittenType) (prose : WrittenProse) (colon : ¬ [' ', ':', ' '] <:+: type.text)
    (not_underline : ¬ IsUnderline type.text)

inductive WrittenSection
  | parameters (dashes : Nat) (written : List WrittenNames)
  | attributes (dashes : Nat) (written : List WrittenNames)
  | results (dashes : Nat) (written : List WrittenResult)

namespace WrittenName

variable (n : WrittenName) {c : Char}

theorem not_blank (h : c ∈ n.text) : Text.isBlank c = false := by
  rcases n.isWord c h with rfl | hc
  · decide
  · exact Text.isBlank_of_isWord hc

/-- No blank and none of the marks around names is in a name. -/
theorem not_mem (h : c ≠ '*') (hc : Text.isWord c = false) : c ∉ n.text := fun hmem => by
  rcases n.isWord c hmem with heq | hword
  · exact h heq
  · rw [hc] at hword
    cases hword

theorem trim_eq : Text.trim n.text = n.text := by
  obtain ⟨c, rest, hcons⟩ := List.exists_cons_of_ne_nil n.ne_nil
  obtain hnil | ⟨init, d, hconcat⟩ := List.eq_nil_or_concat' n.text
  · exact absurd hnil n.ne_nil
  · exact Text.trim_eq_self ⟨c, rest, hcons, n.not_blank (by simp [hcons])⟩
      ⟨init, d, hconcat, n.not_blank (by simp [hconcat])⟩

end WrittenName

/-- The names of an entry, with commas between them. -/
def joinNames (names : List WrittenName) : List Char :=
  Text.joinWith [',', ' '] (names.map WrittenName.text)

theorem not_mem_joinNames {names : List WrittenName} {c : Char} (hmarks : c ∉ [',', ' ', '*'])
    (hc : Text.isWord c = false) : c ∉ joinNames names := by
  simp only [List.mem_cons, List.not_mem_nil, or_false, not_or] at hmarks
  intro hmem
  rcases Text.mem_of_mem_joinWith hmem with hsep | ⟨piece, hpiece, hmem⟩
  · simp [hmarks.1, hmarks.2.1] at hsep
  · obtain ⟨n, -, rfl⟩ := List.mem_map.1 hpiece
    exact n.not_mem hmarks.2.2 hc hmem

theorem exists_joinNames (first : WrittenName) (more : List WrittenName) :
    ∃ rest, joinNames (first :: more) = first.text ++ rest := by
  cases more with
  | nil => exact ⟨[], (List.append_nil _).symm⟩
  | cons next more =>
    rw [joinNames, List.map_cons, List.map_cons, Text.joinWith_cons_cons, List.append_assoc]
    exact ⟨_, rfl⟩

/-- A head with names, a colon and a type. -/
def declaration (names : List WrittenName) (type : WrittenType) : Line :=
  joinNames names ++ ' ' :: ':' :: ' ' :: type.text

/-- The entry with such a head. -/
def declared (first : WrittenName) (more : List WrittenName) (type : WrittenType)
    (prose : WrittenProse) : WrittenEntry :=
  have htrim : Text.trim (declaration (first :: more) type) = declaration (first :: more) type := by
    obtain ⟨names, hnames⟩ := exists_joinNames first more
    obtain ⟨c, rest, hfirst⟩ := List.exists_cons_of_ne_nil first.ne_nil
    obtain ⟨init, d, hlast, hd⟩ := Text.exists_concat_of_trim_eq_self type.trimmed type.ne_nil
    refine Text.trim_eq_self ⟨c, rest ++ names ++ ' ' :: ':' :: ' ' :: type.text, ?_, ?_⟩
      ⟨joinNames (first :: more) ++ ' ' :: ':' :: ' ' :: init, d, ?_, hd⟩
    · rw [declaration, hnames, hfirst]
      rfl
    · exact first.not_blank (by simp [hfirst])
    · simp [declaration, hlast]
  { head := declaration (first :: more) type
    prose := prose
    ne_nil := by simp [declaration]
    trimmed := htrim
    line := by
      have hnames : '\n' ∉ joinNames (first :: more) := not_mem_joinNames (by decide) (by decide)
      simp [declaration, hnames, type.line]
    not_underline := by
      rintro ⟨n, hdashes⟩
      have hcolon : ':' ∈ declaration (first :: more) type := by simp [declaration]
      rw [← htrim, hdashes] at hcolon
      exact absurd (List.eq_of_mem_replicate hcolon) (by decide) }

namespace WrittenNames

variable (w : WrittenNames)

def written : WrittenEntry := declared w.first w.more w.type w.prose

/-- One entry for each name, all with the same type and description. -/
def entries : List Entry :=
  (w.first :: w.more).map fun n =>
    { name := n.text, typeText := w.type.text, description := w.prose.text }

end WrittenNames

namespace WrittenResult

def written : WrittenResult → WrittenEntry
  | .named name type prose => declared name [] type prose
  | .bare type prose _ not_underline =>
    { head := type.text, prose, ne_nil := type.ne_nil, trimmed := type.trimmed, line := type.line
      not_underline }

def entry : WrittenResult → Entry
  | .named name type prose =>
    { name := name.text, typeText := type.text, description := prose.text }
  | .bare type prose _ _ => { typeText := type.text, description := prose.text }

end WrittenResult

namespace WrittenEntry

variable (e : WrittenEntry)

def moreLines : List Line := e.prose.lines.map fun l => List.replicate 4 ' ' ++ l

def lines : List Line := e.head :: e.moreLines

end WrittenEntry

namespace WrittenSection

def heading : WrittenSection → Line
  | .parameters .. => ['P', 'a', 'r', 'a', 'm', 'e', 't', 'e', 'r', 's']
  | .attributes .. => ['A', 't', 't', 'r', 'i', 'b', 'u', 't', 'e', 's']
  | .results .. => ['R', 'e', 't', 'u', 'r', 'n', 's']

def underline : WrittenSection → Line
  | .parameters dashes _ | .attributes dashes _ | .results dashes _ =>
    List.replicate (dashes + 3) '-'

def kind : WrittenSection → SectionKind
  | .parameters .. => .parameters
  | .attributes .. => .attributes
  | .results .. => .results

def written : WrittenSection → List WrittenEntry
  | .parameters _ written | .attributes _ written => written.map WrittenNames.written
  | .results _ written => written.map WrittenResult.written

def entries : WrittenSection → List Entry
  | .parameters _ written | .attributes _ written => written.flatMap WrittenNames.entries
  | .results _ written => written.map WrittenResult.entry

/-- The lines under the underline, with some empty ones at their end. -/
def body (gap : Nat) (s : WrittenSection) : List Line :=
  s.written.flatMap WrittenEntry.lines ++ List.replicate gap []

def lines (gap : Nat) (s : WrittenSection) : List Line := s.heading :: s.underline :: s.body gap

end WrittenSection

/-- A summary and sections in lines, with some empty lines below each. -/
def render (gap : Nat) (summary : WrittenSummary) (sections : List WrittenSection) : List Char :=
  joinLines (summary.text :: (List.replicate gap [] ++ sections.flatMap (WrittenSection.lines gap)))

/-- What sections of a kind hold, in order. -/
def entriesUnder (kind : SectionKind) (sections : List WrittenSection) : List Entry :=
  (sections.filter fun s => s.kind = kind).flatMap WrittenSection.entries

/-! ## 2. Entries -/

theorem splitOn_joinNames (first : WrittenName) (more : List WrittenName) :
    Text.splitOn ',' (joinNames (first :: more))
      = first.text :: more.map fun n => [' '] ++ n.text := by
  have hcomma : ∀ n : WrittenName, ',' ∉ n.text := fun n => n.not_mem (by decide) (by decide)
  have hpieces : ∀ piece ∈ first.text :: (more.map WrittenName.text).map ([' '] ++ ·),
      ',' ∉ piece := by
    refine List.forall_mem_cons.2 ⟨hcomma first, ?_⟩
    simp [hcomma]
  rw [joinNames, List.map_cons, show [',', ' '] = [','] ++ [' '] from rfl, Text.joinWith_gap,
    Text.splitOn_eq, Text.joinWith_eq, List.splitOn_intercalate ',' hpieces (by simp), List.map_map]
  rfl

theorem splitAtFirst_declaration (names : List WrittenName) (type : WrittenType) :
    Text.splitAtFirst " : ".toList (declaration names type) = some (joinNames names, type.text) :=
  Text.splitAtFirst_colon (not_mem_joinNames (by decide) (by decide))

/-- A head with several names documents each of them. -/
theorem named_declaration (first : WrittenName) (more : List WrittenName) (type : WrittenType)
    (description : List Line) :
    named (declaration (first :: more) type, description)
      = (first :: more).map fun n =>
        { name := n.text, typeText := type.text, description := flatten description } := by
  have htrim : (Text.splitOn ',' (joinNames (first :: more))).map Text.trim
      = (first :: more).map WrittenName.text := by
    rw [splitOn_joinNames, List.map_cons, first.trim_eq, List.map_map, List.map_cons]
    refine congrArg _ (List.map_congr_left fun n _ => ?_)
    exact (Text.trim_of_isBlank_append (by decide)).trans n.trim_eq
  have hnames : ((first :: more).map WrittenName.text).filter (fun n => !n.isEmpty)
      = (first :: more).map WrittenName.text := by
    refine List.filter_eq_self.2 (List.forall_mem_map.2 fun n _ => ?_)
    simp [n.ne_nil]
  simp only [named, splitAtFirst_declaration, htrim, hnames, type.trimmed, List.map_map]
  rfl

/-- That a line and the lines after it are read off an entry. -/
def WrittenEntry.HeldBy (e : WrittenEntry) (b : Line × List Line) : Prop :=
  BlockReadAs (e.head, e.moreLines) b

namespace WrittenEntry

variable {e : WrittenEntry} {b : Line × List Line}

theorem HeldBy.trim_first (h : e.HeldBy b) : Text.trim b.1 = e.head :=
  h.1.trim_eq.trans e.trimmed

theorem HeldBy.flatten_eq (h : e.HeldBy b) : flatten b.2 = e.prose.text := by
  have htrim : b.2.map Text.trim = e.prose.lines.map Text.trim := by
    rw [Text.ReadAs.map_trim_eq h.2, moreLines, List.map_map]
    exact List.map_congr_left fun l _ =>
      Text.trim_of_isBlank_append (Text.isBlank_replicate (by decide) 4)
  have hfilled : ∀ l ∈ e.prose.lines.map Text.trim, (!l.isEmpty) = true := by
    refine List.forall_mem_map.2 fun l hl => ?_
    have hne : Text.trim l ≠ [] := fun hnil => e.prose.filled l hl (Text.trim_eq_nil_iff.1 hnil)
    simp [hne]
  rw [flatten, htrim, List.filter_eq_self.2 hfilled, WrittenProse.text]

theorem newline_not_mem {line : Line} (h : line ∈ e.lines) : '\n' ∉ line := by
  rcases List.mem_cons.1 h with rfl | h
  · exact e.line
  · obtain ⟨l, hl, rfl⟩ := List.mem_map.1 h
    simp [e.prose.line l hl]

theorem isBlock_lines (e : WrittenEntry) : IsBlock 0 (e.head, e.moreLines) := by
  obtain ⟨c, rest, hhead, hc⟩ := Text.exists_cons_of_trim_eq_self e.trimmed e.ne_nil
  refine ⟨⟨?_, ?_⟩, fun l hl => ?_⟩
  · rw [Text.isBlankLine, e.trimmed, hhead]
    rfl
  · rw [hhead, Text.indentation_cons hc]
  · obtain ⟨line, hline, rfl⟩ := List.mem_map.1 hl
    rw [Text.indentation_append_of_isBlank (Text.isBlank_replicate (by decide) 4),
      List.length_replicate, ← Bool.not_eq_true, Text.isBlankLine_iff]
    refine ⟨fun hblank => e.prose.filled line hline fun c hc => ?_, by omega⟩
    exact hblank c (List.mem_append_right _ hc)

theorem not_isUnderline {line : Line} (h : line ∈ e.lines) : ¬ IsUnderline line := by
  rcases List.mem_cons.1 h with rfl | h
  · exact e.not_underline
  · obtain ⟨l, hl, rfl⟩ := List.mem_map.1 h
    have hblanks : Text.IsBlank (List.replicate 4 ' ') := Text.isBlank_replicate (by decide) 4
    rw [isUnderline_congr (Text.trim_of_isBlank_append hblanks)]
    exact e.prose.not_underline l hl

end WrittenEntry

theorem entries_read {es : List WrittenEntry} {gap : Nat} {reads : List Line}
    (h : List.Forall₂ Text.ReadAs (es.flatMap WrittenEntry.lines ++ List.replicate gap []) reads) :
    ∃ blocks, List.Forall₂ WrittenEntry.HeldBy es blocks
      ∧ entries reads = blocks.map fun b => (Text.trim b.1, b.2) := by
  have hlines : es.flatMap WrittenEntry.lines
      = (es.map fun e => (e.head, e.moreLines)).flatMap fun b => b.1 :: b.2 := by
    rw [List.flatMap_map]
    rfl
  have hwritten : ∀ w ∈ es.map fun e => (e.head, e.moreLines), IsBlock 0 w :=
    List.forall_mem_map.2 fun e _ => e.isBlock_lines
  rw [hlines] at h
  obtain ⟨blocks, blanks, hblocks, rfl, hblock, hblank⟩ := exists_blocks_blanks hwritten h
  rw [List.forall₂_map_left_iff] at hblocks
  refine ⟨blocks, hblocks, ?_⟩
  rw [entries, dropWhile_blocks hblock hblank, group_blocks hblock hblank]

theorem named_read {w : WrittenNames} {b : Line × List Line} (h : w.written.HeldBy b) :
    named (Text.trim b.1, b.2) = w.entries := by
  rw [h.trim_first]
  exact (named_declaration _ _ _ _).trans (by rw [h.flatten_eq]; rfl)

theorem result_read {r : WrittenResult} {b : Line × List Line} (h : r.written.HeldBy b) :
    result (Text.trim b.1, b.2) = r.entry := by
  rw [h.trim_first]
  cases r with
  | named name type prose =>
    have hflatten : flatten b.2 = prose.text := h.flatten_eq
    have hcut : Text.splitAtFirst " : ".toList (WrittenResult.named name type prose).written.head
        = some (name.text, type.text) := splitAtFirst_declaration [name] type
    simp only [result, hcut, name.trim_eq, type.trimmed, hflatten, WrittenResult.entry]
  | bare type prose colon not_underline =>
    have hflatten : flatten b.2 = prose.text := h.flatten_eq
    have hcut : Text.splitAtFirst " : ".toList type.text = none :=
      Text.splitAtFirst_eq_none (by decide) colon
    simp only [result, WrittenResult.written, hcut, hflatten, WrittenResult.entry]

/-- Entries are read as written, in order, if each is. -/
theorem flatMap_entries {α : Type} {write : α → WrittenEntry} {entries' : α → List Entry}
    {read : Line × List Line → List Entry}
    (hread : ∀ a b, (write a).HeldBy b → read (Text.trim b.1, b.2) = entries' a)
    {written : List α} {gap : Nat} {reads : List Line}
    (h : List.Forall₂ Text.ReadAs
      ((written.map write).flatMap WrittenEntry.lines ++ List.replicate gap []) reads) :
    (entries reads).flatMap read = written.flatMap entries' := by
  obtain ⟨blocks, hblocks, heq⟩ := entries_read h
  rw [heq]
  rw [List.forall₂_map_left_iff] at hblocks
  clear h heq
  induction hblocks with
  | nil => rfl
  | cons hheld _ ih =>
    rw [List.map_cons, List.flatMap_cons, hread _ _ hheld, ih, List.flatMap_cons]

/-! ## 3. Sections -/

/-- Lines without underlines are before a section. -/
theorem section_cut {before after : List Line} (hbefore : ∀ l ∈ before, isUnderline l = false)
    (hafter : after = [] ∨ startsSection after = true)
    (htitle : ∀ l ∈ after.head?, isUnderline l = false) :
    beforeSection (before ++ after) = before ∧ fromSection (before ++ after) = after := by
  induction before with
  | nil =>
    rcases hafter with rfl | hstart
    · exact ⟨rfl, rfl⟩
    · cases after with
      | nil => exact ⟨rfl, rfl⟩
      | cons l more =>
        rw [List.nil_append, beforeSection, fromSection, if_pos hstart, if_pos hstart]
        exact ⟨rfl, rfl⟩
  | cons l before ih =>
    rw [List.forall_mem_cons] at hbefore
    have hstart : ¬ startsSection (l :: (before ++ after)) = true := by
      cases hrest : before ++ after with
      | nil => simp [startsSection]
      | cons u more =>
        have hu : isUnderline u = false := by
          cases before with
          | nil => exact htitle u (by rw [← List.nil_append after, hrest]; rfl)
          | cons d before => exact hbefore.2 u (by simp [(List.cons.inj hrest).1])
        simp [startsSection, hu]
    obtain ⟨hhead, htail⟩ := ih hbefore.2
    rw [List.cons_append, beforeSection, fromSection, if_neg hstart, if_neg hstart, hhead, htail]
    exact ⟨rfl, rfl⟩

namespace WrittenSection

variable (s : WrittenSection)

theorem heading_not_mem {c : Char} (h : c = '\r' ∨ c = '\n') : c ∉ s.heading := by
  rcases h with rfl | rfl <;> cases s <;> simp only [heading] <;> decide +kernel

theorem trim_heading : Text.trim s.heading = s.heading := by
  cases s <;> simp only [heading] <;> decide +kernel

theorem isBlankLine_heading : Text.isBlankLine s.heading = false := by
  cases s <;> simp only [heading] <;> decide +kernel

theorem isUnderline_heading : isUnderline s.heading = false := by
  cases s <;> simp only [heading] <;> decide +kernel

theorem kind_heading : Numpy.kind s.heading = s.kind := by
  cases s <;> simp only [heading, kind] <;> decide +kernel

theorem exists_underline : ∃ n, s.underline = List.replicate (n + 3) '-' := by
  cases s <;> exact ⟨_, rfl⟩

theorem underline_not_mem {c : Char} (h : c ≠ '-') : c ∉ s.underline := by
  obtain ⟨n, heq⟩ := s.exists_underline
  rw [heq]
  exact fun hmem => h (List.eq_of_mem_replicate hmem)

theorem isUnderline_underline : isUnderline s.underline = true := by
  obtain ⟨n, heq⟩ := s.exists_underline
  refine isUnderline_iff.2 ⟨n, ?_⟩
  rw [heq]
  exact Text.trim_eq_self ⟨'-', _, List.replicate_succ, by decide⟩
    ⟨_, '-', List.replicate_succ', by decide⟩

variable {s} {gap : Nat} {line read : Line}

/-- No line below the underline is one itself. -/
theorem isUnderline_of_mem_body (h : line ∈ s.body gap) (hread : Text.ReadAs line read) :
    isUnderline read = false := by
  rw [← Bool.not_eq_true, isUnderline_iff, isUnderline_congr hread.trim_eq]
  rcases List.mem_append.1 h with h | h
  · obtain ⟨e, -, h⟩ := List.mem_flatMap.1 h
    exact e.not_isUnderline h
  · rw [List.eq_of_mem_replicate h, ← isUnderline_iff]
    decide

theorem newline_not_mem (h : line ∈ s.lines gap) : '\n' ∉ line := by
  rcases List.mem_cons.1 h with rfl | h
  · exact s.heading_not_mem (.inr rfl)
  rcases List.mem_cons.1 h with rfl | h
  · exact s.underline_not_mem (by decide)
  rcases List.mem_append.1 h with h | h
  · obtain ⟨e, -, h⟩ := List.mem_flatMap.1 h
    exact e.newline_not_mem h
  · exact Text.not_mem_of_mem_replicate_nil h

end WrittenSection

/-- Sections are read in the way of their kind. -/
theorem named_of_kind {s : WrittenSection} {gap : Nat} {reads : List Line}
    (hkind : s.kind = .parameters ∨ s.kind = .attributes)
    (h : List.Forall₂ Text.ReadAs (s.body gap) reads) :
    (entries reads).flatMap named = s.entries := by
  cases s with
  | parameters dashes written => exact flatMap_entries (fun _ _ hheld => named_read hheld) h
  | attributes dashes written => exact flatMap_entries (fun _ _ hheld => named_read hheld) h
  | results dashes written => simp [WrittenSection.kind] at hkind

theorem results_of_kind {s : WrittenSection} {gap : Nat} {reads : List Line}
    (hkind : s.kind = .results) (h : List.Forall₂ Text.ReadAs (s.body gap) reads) :
    (entries reads).map result = s.entries := by
  cases s with
  | parameters dashes written => cases hkind
  | attributes dashes written => cases hkind
  | results dashes written =>
    rw [WrittenSection.entries, List.map_eq_flatMap, List.map_eq_flatMap]
    exact flatMap_entries (fun _ _ hheld => by rw [result_read hheld]) h

/-- That a section has the heading of a written one and the lines read off its body. -/
def WrittenSection.FoundAs (gap : Nat) (w : WrittenSection) (s : Section) : Prop :=
  s.heading = w.heading ∧ List.Forall₂ Text.ReadAs (w.body gap) s.body

/-- Lines read off sections are none, or begin with a section and not with an underline. -/
theorem startsSection_read {gap : Nat} {written : List WrittenSection} {reads : List Line}
    (h : List.Forall₂ Text.ReadAs (written.flatMap (WrittenSection.lines gap)) reads) :
    (reads = [] ∨ startsSection reads = true) ∧ ∀ l ∈ reads.head?, isUnderline l = false := by
  cases written with
  | nil => simp [List.forall₂_nil_left_iff.1 h]
  | cons w written =>
    obtain ⟨title, rest, htitle, hrest, rfl⟩ := List.forall₂_cons_left_iff.1 h
    obtain ⟨dashes, rest, hdashes, -, rfl⟩ := List.forall₂_cons_left_iff.1 hrest
    rw [htitle.eq_of_not_mem (w.heading_not_mem (.inl rfl)),
      hdashes.eq_of_not_mem (w.underline_not_mem (by decide))]
    simp [startsSection, w.isBlankLine_heading, w.isUnderline_underline, w.isUnderline_heading]

/-- Written sections are found again. -/
theorem sections_read {gap : Nat} {written : List WrittenSection} {reads : List Line}
    (h : List.Forall₂ Text.ReadAs (written.flatMap (WrittenSection.lines gap)) reads) :
    List.Forall₂ (WrittenSection.FoundAs gap) written (sections reads) := by
  induction written generalizing reads with
  | nil =>
    rw [List.forall₂_nil_left_iff.1 h, sections_nil]
    exact .nil
  | cons w written ih =>
    rw [List.flatMap_cons] at h
    obtain ⟨mine, others, rfl, hmine, hothers⟩ := Text.ReadAs.exists_of_append h
    obtain ⟨title, rest, htitle, hrest, rfl⟩ := List.forall₂_cons_left_iff.1 hmine
    obtain ⟨dashes, body, -, hbody, rfl⟩ := List.forall₂_cons_left_iff.1 hrest
    have hunder : ∀ l ∈ body, isUnderline l = false := by
      intro l hl
      obtain ⟨line, hline, hread⟩ := Text.exists_of_mem_forall₂ hbody hl
      exact WrittenSection.isUnderline_of_mem_body hline hread
    obtain ⟨hstart, hfirst⟩ := startsSection_read hothers
    obtain ⟨hbefore, hfrom⟩ := section_cut hunder hstart hfirst
    rw [List.cons_append, List.cons_append, sections, hbefore, hfrom]
    exact .cons ⟨htitle.trim_eq.trans w.trim_heading, hbody⟩ (ih hothers)

/-! ## 4. Texts -/

/-- What is read off a description and sections. -/
def assemble (description : List Char) (found : List Section) : Parsed :=
  { description
    parameters := entriesOf kind (fun body => (entries body).flatMap named) found .parameters
    attributes := entriesOf kind (fun body => (entries body).flatMap named) found .attributes
    results := entriesOf kind (fun body => (entries body).map result) found .results }

/-- What is read off the lines of a text. -/
def parseLines (ls : List Line) : Parsed :=
  assemble (Text.trim (joinLines (beforeSection ls))) (sections (fromSection ls))

theorem parse_eq (t : List Char) : parse t = parseLines (Text.lines t) := rfl

/-- Written sections are read as written. -/
theorem assemble_read {gap : Nat} {written : List WrittenSection} {found : List Section}
    (description : List Char) (h : List.Forall₂ (WrittenSection.FoundAs gap) written found) :
    assemble description found
      = { description
          parameters := entriesUnder .parameters written
          attributes := entriesUnder .attributes written
          results := entriesUnder .results written } := by
  have hkind : ∀ (w : WrittenSection) (s : Section), w.FoundAs gap s → kind s.heading = w.kind := by
    intro w s hs
    rw [hs.1, w.kind_heading]
  rw [assemble]
  congr 1
  · exact entriesOf_written hkind (fun w s hs hw => named_of_kind (.inl hw) hs.2) h
  · exact entriesOf_written hkind (fun w s hs hw => named_of_kind (.inr hw) hs.2) h
  · exact entriesOf_written hkind (fun w s hs hw => results_of_kind hw hs.2) h

theorem startsSection_concat_nil (ls : List Line) :
    startsSection (ls ++ [[]]) = startsSection ls := by
  match ls with
  | [] => rfl
  | [l] => simp [startsSection, show isUnderline [] = false from rfl]
  | l :: u :: more => rfl

/-- One more empty line at the end is behind the cut, or everything is before it. -/
theorem section_cut_concat_nil (ls : List Line) :
    (beforeSection (ls ++ [[]]) = beforeSection ls ∧ startsSection (fromSection ls) = true
        ∧ fromSection (ls ++ [[]]) = fromSection ls ++ [[]])
      ∨ (beforeSection (ls ++ [[]]) = beforeSection ls ++ [[]] ∧ fromSection ls = []
        ∧ fromSection (ls ++ [[]]) = []) := by
  induction ls with
  | nil => exact .inr ⟨rfl, rfl, rfl⟩
  | cons l more ih =>
    have hstart := startsSection_concat_nil (l :: more)
    rw [List.cons_append] at hstart ⊢
    rw [beforeSection, fromSection, beforeSection, fromSection, hstart]
    by_cases h : startsSection (l :: more) = true
    · simp only [if_pos h]
      exact .inl ⟨trivial, h, rfl⟩
    · simp only [if_neg h]
      rcases ih with ⟨hbefore, hstart, hfrom⟩ | ⟨hbefore, hnone, hfrom⟩
      · exact .inl ⟨by rw [hbefore], hstart, hfrom⟩
      · exact .inr ⟨by rw [hbefore]; rfl, hnone, hfrom⟩

theorem entries_concat_nil (body : List Line) : entries (body ++ [[]]) = entries body := by
  rw [entries, entries, filled_concat_nil, atBase_concat_nil]

/-- An empty line at the end changes nothing in the sections. -/
theorem entriesOf_sections_concat_nil {read : List Line → List Entry} {ls : List Line}
    (hread : ∀ body, read (body ++ [[]]) = read body) (h : startsSection ls = true)
    (wanted : SectionKind) :
    entriesOf kind read (sections (ls ++ [[]])) wanted
      = entriesOf kind read (sections ls) wanted := by
  induction ls using sections.induct with
  | case1 l u more ih =>
    rw [List.cons_append, List.cons_append, sections, sections, entriesOf_cons, entriesOf_cons]
    rcases section_cut_concat_nil more with ⟨hbefore, hstart, hfrom⟩ | ⟨hbefore, hnone, hfrom⟩
    · rw [hbefore, hfrom, ih hstart]
    · rw [hbefore, hfrom, hnone, hread]
  | case2 ls hshort =>
    cases ls with
    | nil => cases h
    | cons l rest =>
      cases rest with
      | nil => cases h
      | cons u more => exact absurd rfl (hshort l u more)

theorem parseLines_concat_nil (ls : List Line) : parseLines (ls ++ [[]]) = parseLines ls := by
  rw [parseLines, parseLines]
  rcases section_cut_concat_nil ls with ⟨hbefore, hstart, hfrom⟩ | ⟨hbefore, hnone, hfrom⟩
  · rw [hbefore, hfrom, assemble, assemble]
    congr 1
    · exact entriesOf_sections_concat_nil (fun body => by rw [entries_concat_nil]) hstart _
    · exact entriesOf_sections_concat_nil (fun body => by rw [entries_concat_nil]) hstart _
    · exact entriesOf_sections_concat_nil (fun body => by rw [entries_concat_nil]) hstart _
  · rw [hbefore, hfrom, hnone, joinLines,
      Text.trim_joinWith_append (List.forall_mem_singleton.2 Text.isBlank_nil)]
    rfl

/-- No line read off a summary is an underline. -/
theorem isUnderline_of_mem_summary {summary : WrittenSummary} {line read : Line}
    (h : line ∈ Text.splitOn '\n' summary.text) (hread : Text.ReadAs line read) :
    isUnderline read = false := by
  rw [← Bool.not_eq_true, isUnderline_iff, isUnderline_congr hread.trim_eq]
  exact summary.not_underline line h

/-- A summary alone has no sections. -/
theorem parse_summary (summary : WrittenSummary) :
    parse summary.text = { description := Text.trim (joinLines (Text.lines summary.text)) } := by
  have hlines : ∀ l ∈ Text.lines summary.text, isUnderline l = false := by
    intro l hl
    obtain ⟨reads, hreads, heq⟩ := Text.exists_lines summary.text
    have hmem : l ∈ reads := by
      rcases heq with heq | heq
      · exact heq ▸ hl
      · exact heq ▸ List.mem_append_left _ hl
    obtain ⟨line, hline, hread⟩ := Text.exists_of_mem_forall₂ hreads hmem
    exact isUnderline_of_mem_summary hline hread
  obtain ⟨hbefore, hfrom⟩ := section_cut hlines (.inl rfl) (by simp)
  rw [List.append_nil] at hbefore hfrom
  rw [parse_eq, parseLines, hbefore, hfrom, sections_nil]
  rfl

/-- The lines below a summary are read one by one. -/
theorem exists_reads {gap : Nat} (summary : WrittenSummary) {sections : List WrittenSection}
    (hne : List.replicate gap [] ++ sections.flatMap (WrittenSection.lines gap) ≠ []) :
    ∃ blanks after, List.Forall₂ Text.ReadAs (List.replicate gap []) blanks
      ∧ List.Forall₂ Text.ReadAs (sections.flatMap (WrittenSection.lines gap)) after
      ∧ parse (render gap summary sections)
        = parseLines ((Text.splitOn '\n' summary.text).map Text.dropReturn ++ blanks ++ after) := by
  generalize hrest : List.replicate gap [] ++ sections.flatMap (WrittenSection.lines gap) = rest
    at hne
  have hfeed : ∀ l ∈ rest, '\n' ∉ l := by
    rw [← hrest]
    refine List.forall_mem_append.2 ⟨fun l hl => ?_, fun l hl => ?_⟩
    · exact Text.not_mem_of_mem_replicate_nil hl
    · obtain ⟨s, -, hl⟩ := List.mem_flatMap.1 hl
      exact s.newline_not_mem hl
  have hrender : render gap summary sections = summary.text ++ '\n' :: joinLines rest := by
    obtain ⟨l, more, rfl⟩ := List.exists_cons_of_ne_nil hne
    rw [render, hrest, joinLines, Text.joinWith_cons_cons, List.append_assoc]
    rfl
  obtain ⟨reads, hreads, hlines⟩ := Text.exists_lines (joinLines rest)
  have hsplit : Text.splitOn '\n' (joinLines rest) = rest := by
    rw [joinLines, Text.splitOn_eq, Text.joinWith_eq, List.splitOn_intercalate '\n' hfeed hne]
  rw [hsplit, ← hrest] at hreads
  obtain ⟨blanks, after, rfl, hblanks, hafter⟩ := Text.ReadAs.exists_of_append hreads
  refine ⟨blanks, after, hblanks, hafter, ?_⟩
  rw [parse_eq, hrender, Text.lines_append_cons, List.append_assoc]
  rcases hlines with hlines | hlines
  · rw [hlines]
  · rw [hlines, ← List.append_assoc, parseLines_concat_nil]

/-- What is written in sections is read back. -/
theorem parse_written (gap : Nat) (summary : WrittenSummary) (sections : List WrittenSection) :
    parse (render gap summary sections)
      = { description := Text.trim (joinLines (Text.lines summary.text))
          parameters := entriesUnder .parameters sections
          attributes := entriesUnder .attributes sections
          results := entriesUnder .results sections } := by
  by_cases hne : List.replicate gap [] ++ sections.flatMap (WrittenSection.lines gap) = []
  · have hrender : render gap summary sections = summary.text := by
      rw [render, hne]
      rfl
    have hnone : sections = [] := by
      cases sections with
      | nil => rfl
      | cons s sections => simp [WrittenSection.lines] at hne
    rw [hrender, parse_summary, hnone]
    rfl
  · obtain ⟨blanks, after, hblanks, hafter, hparse⟩ := exists_reads summary hne
    have hblank : ∀ l ∈ blanks, Text.IsBlank l := by
      intro l hl
      obtain ⟨line, hline, hread⟩ := Text.exists_of_mem_forall₂ hblanks hl
      rw [← Text.isBlankLine_iff, hread.isBlankLine_eq, List.eq_of_mem_replicate hline]
      rfl
    have hbefore : ∀ l ∈ (Text.splitOn '\n' summary.text).map Text.dropReturn ++ blanks,
        isUnderline l = false := by
      refine List.forall_mem_append.2 ⟨List.forall_mem_map.2 fun l hl => ?_, fun l hl => ?_⟩
      · exact isUnderline_of_mem_summary hl (.inr rfl)
      · rw [isUnderline, Text.trim_eq_nil_iff.2 (hblank l hl)]
        rfl
    obtain ⟨hstart, hfirst⟩ := startsSection_read hafter
    obtain ⟨hcut, hfrom⟩ := section_cut hbefore hstart hfirst
    rw [hparse, parseLines, hcut, hfrom, assemble_read _ (sections_read hafter), joinLines,
      Text.trim_joinWith_append hblank, ← Text.trim_joinWith_lines]
    rfl

/-- Without carriage returns the lines of a text make up the text. -/
theorem trim_joinLines_lines {t : List Char} (h : '\r' ∉ t) :
    Text.trim (joinLines (Text.lines t)) = Text.trim t := by
  have hkept : (Text.splitOn '\n' t).map Text.dropReturn = Text.splitOn '\n' t := by
    refine (List.map_congr_left fun l hl => ?_).trans (List.map_id _)
    exact Text.dropReturn_of_not_mem fun hreturn => h (Text.mem_of_mem_splitOn hl hreturn)
  rw [joinLines, Text.trim_joinWith_lines, hkept, Text.joinWith_splitOn]

/-- What is read off lines whose sections begin at given headers. -/
def readAt (ls : List Line) (visited : List Nat) : Parsed :=
  assemble (Text.trim (joinLines (ls.take (visited.head?.getD ls.length))))
    (visited.map (sectionAt ls visited))

/-- **Sections are read back, and headers visited once.**  A summary and any number of sections in
any order, each with any number of entries, are read as the trimmed summary and exactly these
entries in order, one for each name, with its type and the trimmed lines of its description put on
one line.  A carriage return that closes a line of the summary together with a line feed is not
read.

In any text whatever, the headers are visited in order and each once, apart from those that are
themselves the underlines of visited ones, and the text is read as the sections of the visited
headers. -/
theorem sections_read_and_visited (gap : Nat) (summary : WrittenSummary)
    (sections : List WrittenSection) (t : List Char) :
    parse (render gap summary sections)
        = { description := Text.trim (joinLines (Text.lines summary.text))
            parameters := entriesUnder .parameters sections
            attributes := entriesUnder .attributes sections
            results := entriesUnder .results sections }
      ∧ ('\r' ∉ summary.text →
        Text.trim (joinLines (Text.lines summary.text)) = Text.trim summary.text)
      ∧ ∃ visited, Visits (Text.lines t) visited
        ∧ 2 * visited.length ≤ (Text.lines t).length
        ∧ parse t = readAt (Text.lines t) visited := by
  refine ⟨parse_written gap summary sections, trim_joinLines_lines, ?_⟩
  obtain ⟨visited, hvisits, hhalf, hbefore, hsections⟩ := exists_visits (Text.lines t)
  refine ⟨visited, hvisits, hhalf, ?_⟩
  rw [parse_eq, parseLines, hbefore, hsections, readAt]

namespace Sample

def word (text : List Char) (hne : text ≠ []) (h : text.all Text.isWord = true) : WrittenName where
  text := text
  ne_nil := hne
  isWord := fun c hc => .inr (List.all_eq_true.1 h c hc)

def summary : WrittenSummary where
  text := "Split a frame.".toList
  not_underline := by decide +kernel

/-- Two names with a type that has a comma, and a description that looks like a head. -/
def bounds : WrittenNames where
  first := word "lower".toList (by decide +kernel) (by decide +kernel)
  more := [word "upper".toList (by decide +kernel) (by decide +kernel)]
  type :=
    { text := "int, optional".toList, ne_nil := by decide +kernel, trimmed := by decide +kernel
      line := by decide +kernel }
  prose :=
    { lines := ["Row bounds".toList, "step : int".toList], line := by decide +kernel
      filled := by decide +kernel, not_underline := by decide +kernel }

def head : WrittenResult :=
  .named (word "head".toList (by decide +kernel) (by decide +kernel))
    { text := "Frame".toList, ne_nil := by decide +kernel, trimmed := by decide +kernel
      line := by decide +kernel }
    { lines := ["The first rows.".toList], line := by decide +kernel, filled := by decide +kernel
      not_underline := by decide +kernel }

def rest : WrittenResult :=
  .bare
    { text := "dict[str: Frame]".toList, ne_nil := by decide +kernel, trimmed := by decide +kernel
      line := by decide +kernel }
    { lines := ["The rest.".toList], line := by decide +kernel, filled := by decide +kernel
      not_underline := by decide +kernel }
    (by decide +kernel) (by decide +kernel)

/-- Two names for one type, a result with a name and one without. -/
def splitFrame : List Char :=
  ("Split a frame.\n\nParameters\n---\nlower, upper : int, optional\n    Row bounds\n"
    ++ "    step : int\n\nReturns\n-------\nhead : Frame\n    The first rows.\n"
    ++ "dict[str: Frame]\n    The rest.\n").toList

theorem split_frame_read :
    parse splitFrame
        = { description := "Split a frame.".toList
            parameters :=
              [{ name := "lower".toList, typeText := "int, optional".toList
                 description := "Row bounds step : int".toList },
               { name := "upper".toList, typeText := "int, optional".toList
                 description := "Row bounds step : int".toList }]
            results :=
              [{ name := "head".toList, typeText := "Frame".toList
                 description := "The first rows.".toList },
               { typeText := "dict[str: Frame]".toList, description := "The rest.".toList }] } := by
  obtain ⟨hread, hsummary, -⟩ := sections_read_and_visited 1 summary
    [.parameters 0 [bounds], .results 4 [head, rest]] []
  have htext : render 1 summary [.parameters 0 [bounds], .results 4 [head, rest]] = splitFrame := by
    decide +kernel
  rw [← htext, hread, hsummary (by decide +kernel)]
  decide +kernel

/-- The underline below a header has another one below it. -/
def doubled : List Char := "Parameters\n----\n----\nx : int\n".toList

/-- A header that is passed over, and a carriage return that is. -/
theorem underlined_underline_passed_over :
    IsHeader (Text.lines doubled) 1
      ∧ (∀ visited, Visits (Text.lines doubled) visited → 1 ∉ visited)
      ∧ (parse doubled).parameters
        = [{ name := "----".toList }, { name := "x".toList, typeText := "int".toList }]
      ∧ parse "a\r\nb".toList = { description := "a\nb".toList } := by
  refine ⟨by decide +kernel, fun visited h hmem => ?_, by decide +kernel, by decide +kernel⟩
  have hfirst : 0 ∈ visited := (h.mem_iff 0).2 ⟨by decide +kernel, fun j _ => by omega⟩
  exact ((h.mem_iff 1).1 hmem).2 0 hfirst rfl

end Sample

end ApiSurface.Docstring.Numpy
