import ApiSurface.Docstring.Google
import ApiSurface.Proofs.DocstringLines
/-!
# Google sections read back

A docstring in this style is a summary and sections of entries, written with headings that are not
indented, entries at four blanks and the lines that continue them at eight (`render`).  Reading it
gives the trimmed summary and the entries again.

What is written need not be plain.  A type may hold parentheses and colons, as long as no
parenthesis closes before a colon; descriptions may look like headings, entries or types, since
whatever is deeper than a heading belongs to its section, and whatever is deeper than an entry
continues it.
Every condition on what is written is a field of the structures of section 1.
-/

namespace ApiSurface.Docstring.Google

/-! ## 1. What is written -/

/-- That a text is a heading with its colon. -/
def IsHeading (t : List Char) : Prop :=
  ∃ c words, t = c :: (words ++ [':']) ∧ isUpper c = true
    ∧ ∀ w ∈ words, isLetter w = true ∨ w = ' '

/-- A text without carriage returns in which no line is a heading. -/
structure WrittenSummary where
  text : List Char
  not_return : '\r' ∉ text
  not_heading : ∀ l ∈ Text.splitOn '\n' text, ¬ IsHeading (Text.trim l)

/-- A description: a line beside the head of an entry, and further ones that are not blank. -/
structure WrittenProse where
  first : Line
  more : List Line
  first_line : '\n' ∉ first
  more_line : ∀ l ∈ more, '\n' ∉ l
  more_filled : ∀ l ∈ more, ¬ Text.IsBlank l

/-- The lines of a description that are not blank, trimmed, with one space between them. -/
def WrittenProse.text (p : WrittenProse) : List Char :=
  Text.joinWith [' '] (((p.first :: p.more).filter fun l => !Text.isBlankLine l).map Text.trim)

theorem WrittenProse.flatten_eq (p : WrittenProse) : flatten (p.first :: p.more) = p.text := by
  rw [flatten, List.filter_map]
  rfl

/-- An entry of a section.  Its head begins with a character that is not blank. -/
structure WrittenEntry where
  head : List Char
  prose : WrittenProse
  head_line : '\n' ∉ head
  head_filled : ∃ c rest, head = c :: rest ∧ Text.isBlank c = false

/-- `name (type): description`, where the name is a word after at most two stars. -/
structure WrittenArgument where
  stars : Nat
  word : List Char
  typeText : List Char
  prose : WrittenProse
  stars_le : stars ≤ 2
  word_ne_nil : word ≠ []
  word_isWord : ∀ c ∈ word, Text.isWord c = true
  type_line : '\n' ∉ typeText
  type_closed : ∀ before blanks after, typeText = before ++ ')' :: (blanks ++ ':' :: after) →
    ¬ Text.IsBlank blanks

/-- `type: description`. -/
structure WrittenResult where
  typeText : List Char
  prose : WrittenProse
  type_ne_nil : typeText ≠ []
  type_trimmed : Text.trim typeText = typeText
  type_line : '\n' ∉ typeText
  type_colon : ':' ∉ typeText

inductive WrittenSection
  | parameters (written : List WrittenArgument)
  | attributes (written : List WrittenArgument)
  | results (written : List WrittenResult)

namespace WrittenArgument

variable (a : WrittenArgument)

def name : List Char := List.replicate a.stars '*' ++ a.word

def entry : Entry :=
  { name := a.name, typeText := Text.trim a.typeText, description := a.prose.text }

/-- Every character of a name is a star or a word character. -/
theorem name_isWord {c : Char} (h : c ∈ a.name) : c = '*' ∨ Text.isWord c = true :=
  (List.mem_append.1 h).imp List.eq_of_mem_replicate (a.word_isWord c)

theorem name_not_blank {c : Char} (h : c ∈ a.name) : Text.isBlank c = false := by
  rcases a.name_isWord h with rfl | hc
  · decide
  · exact Text.isBlank_of_isWord hc

theorem name_ne_nil : a.name ≠ [] := by simp [name, a.word_ne_nil]

def written : WrittenEntry where
  head := a.name ++ ' ' :: '(' :: (a.typeText ++ [')'])
  prose := a.prose
  head_line := by
    have hname : '\n' ∉ a.name := fun h => absurd (a.name_not_blank h) (by decide)
    simp [hname, a.type_line]
  head_filled := by
    obtain ⟨c, rest, hname⟩ := List.exists_cons_of_ne_nil a.name_ne_nil
    have hc : c ∈ a.name := by simp [hname]
    exact ⟨c, _, by rw [hname]; rfl, a.name_not_blank hc⟩

end WrittenArgument

namespace WrittenResult

variable (r : WrittenResult)

def entry : Entry := { typeText := r.typeText, description := r.prose.text }

def written : WrittenEntry where
  head := r.typeText
  prose := r.prose
  head_line := r.type_line
  head_filled := Text.exists_cons_of_trim_eq_self r.type_trimmed r.type_ne_nil

end WrittenResult

namespace WrittenEntry

variable (e : WrittenEntry)

def firstLine : Line := List.replicate 4 ' ' ++ (e.head ++ ':' :: ' ' :: e.prose.first)

def moreLines : List Line := e.prose.more.map fun l => List.replicate 8 ' ' ++ l

def lines : List Line := e.firstLine :: e.moreLines

end WrittenEntry

namespace WrittenSection

def heading : WrittenSection → List Char
  | .parameters _ => ['A', 'r', 'g', 's']
  | .attributes _ => ['A', 't', 't', 'r', 'i', 'b', 'u', 't', 'e', 's']
  | .results _ => ['R', 'e', 't', 'u', 'r', 'n', 's']

def kind : WrittenSection → SectionKind
  | .parameters _ => .parameters
  | .attributes _ => .attributes
  | .results _ => .results

def written : WrittenSection → List WrittenEntry
  | .parameters written | .attributes written => written.map WrittenArgument.written
  | .results written => written.map WrittenResult.written

def entries : WrittenSection → List Entry
  | .parameters written | .attributes written => written.map WrittenArgument.entry
  | .results written => written.map WrittenResult.entry

def title (s : WrittenSection) : Line := s.heading ++ [':']

/-- The lines under the heading, with some empty ones at their end. -/
def body (gap : Nat) (s : WrittenSection) : List Line :=
  s.written.flatMap WrittenEntry.lines ++ List.replicate gap []

def lines (gap : Nat) (s : WrittenSection) : List Line := s.title :: s.body gap

end WrittenSection

/-- A summary and sections in lines, with some empty lines below each. -/
def render (gap : Nat) (summary : WrittenSummary) (sections : List WrittenSection) : List Char :=
  joinLines (summary.text :: (List.replicate gap [] ++ sections.flatMap (WrittenSection.lines gap)))

/-- What sections of a kind hold, in order. -/
def entriesUnder (kind : SectionKind) (sections : List WrittenSection) : List Entry :=
  (sections.filter fun s => s.kind = kind).flatMap WrittenSection.entries

/-! ## 2. Heads -/

/-- A line has a heading exactly if it is one when trimmed. -/
theorem heading?_eq_none_iff {line : Line} :
    heading? line = none ↔ ¬ IsHeading (Text.trim line) := by
  constructor
  · rintro h ⟨c, words, htrim, hc, hwords⟩
    have hlast : (Text.trim line).getLast? = some ':' := by
      rw [htrim, ← List.cons_append, List.getLast?_concat]
    have hinit : (Text.trim line).dropLast = c :: words := by
      rw [htrim, ← List.cons_append, List.dropLast_concat]
    have hall : (isUpper c && words.all fun m => isLetter m || m == ' ') = true := by
      simpa [hc] using hwords
    simp only [heading?, hlast, hinit, hall, if_true] at h
    cases h
  · intro h
    simp only [heading?]
    split
    · rename_i c words hlast hinit
      refine if_neg fun hwords => h ⟨c, words, ?_, ?_⟩
      · rw [← List.dropLast_append_getLast? _ hlast, hinit]
        rfl
      · simpa using hwords
    · rfl

theorem afterColon?_append {t rest : List Char}
    (h : ∀ blanks after, t = blanks ++ ':' :: after → ¬ Text.IsBlank blanks) :
    afterColon? (t ++ ')' :: rest) = none := by
  obtain ⟨b, hb, heq⟩ := Text.exists_trimStart t
  rw [afterColon?, heq, List.append_assoc, Text.trimStart_append_of_isBlank hb]
  cases hs : Text.trimStart t with
  | nil => rfl
  | cons c u =>
    have hc : ':' ≠ c := by
      rintro rfl
      rw [hs] at heq
      exact h b u heq hb
    rw [List.cons_append, Text.trimStart_cons (Text.isBlank_of_trimStart hs), Text.dropStart?,
      if_neg hc]

/-- A type is read up to the parenthesis that closes before the colon. -/
theorem closingAtColon?_append {t rest : List Char}
    (h : ∀ before blanks after, t = before ++ ')' :: (blanks ++ ':' :: after) →
      ¬ Text.IsBlank blanks) :
    closingAtColon? (t ++ ')' :: ':' :: rest) = some (t, rest) := by
  induction t with
  | nil => rfl
  | cons c t ih =>
    have hopen : (if c = ')' then afterColon? (t ++ ')' :: ':' :: rest) else none) = none := by
      split
      · rename_i hc
        subst hc
        exact afterColon?_append fun blanks after heq => h [] blanks after (by rw [heq]; rfl)
      · rfl
    have hrest := ih fun before blanks after heq => h (c :: before) blanks after (by rw [heq]; rfl)
    rw [List.cons_append, closingAtColon?, hopen, hrest]
    rfl

theorem argumentName?_name (a : WrittenArgument) (rest : List Char) :
    argumentName? (a.name ++ ' ' :: rest) = some (a.name, ' ' :: rest) := by
  obtain ⟨c, word, hword⟩ := List.exists_cons_of_ne_nil a.word_ne_nil
  have hstar : c ≠ '*' := by
    have hc : Text.isWord c = true := a.word_isWord c (by simp [hword])
    rintro rfl
    exact absurd hc (by decide)
  have hstars : ∀ d ∈ List.replicate a.stars '*', (d == '*') = true := fun d hd => by
    rw [List.eq_of_mem_replicate hd]
    rfl
  have hfirst : ∀ d ∈ (a.word ++ ' ' :: rest).head?, (d == '*') = false := by
    simp [hword, hstar]
  have hblank : ∀ d ∈ (' ' :: rest).head?, Text.isWord d = false := by
    simp only [List.head?_cons, Option.mem_some_iff, forall_eq']
    decide
  rw [argumentName?, WrittenArgument.name, List.append_assoc, (cut_append hstars hfirst).1,
    (cut_append hstars hfirst).2, (cut_append a.word_isWord hblank).1,
    (cut_append a.word_isWord hblank).2, hword]
  simp [a.stars_le]

/-! ## 3. Entries -/

/-- That a line and the lines after it are read off an entry. -/
def WrittenEntry.HeldBy (e : WrittenEntry) (b : Line × List Line) : Prop :=
  BlockReadAs (e.firstLine, e.moreLines) b

namespace WrittenEntry

variable {e : WrittenEntry} {b : Line × List Line}

theorem trim_firstLine (e : WrittenEntry) :
    Text.trim e.firstLine = e.head ++ ':' :: Text.trimEnd (' ' :: e.prose.first) := by
  obtain ⟨c, rest, hhead, hc⟩ := e.head_filled
  rw [firstLine, Text.trim_of_isBlank_append (Text.isBlank_replicate (by decide) 4), Text.trim,
    ← Text.trimEnd_append_cons (by decide), hhead, List.cons_append, Text.trimStart_cons hc]

theorem HeldBy.trim_first (h : e.HeldBy b) :
    Text.trim b.1 = e.head ++ ':' :: Text.trimEnd (' ' :: e.prose.first) := by
  rw [h.1.trim_eq, trim_firstLine]

theorem HeldBy.map_trim_more (h : e.HeldBy b) :
    b.2.map Text.trim = e.prose.more.map Text.trim := by
  rw [Text.ReadAs.map_trim_eq h.2, moreLines, List.map_map]
  exact List.map_congr_left fun l _ =>
    Text.trim_of_isBlank_append (Text.isBlank_replicate (by decide) 8)

theorem newline_not_mem {line : Line} (h : line ∈ e.lines) : '\n' ∉ line := by
  rcases List.mem_cons.1 h with rfl | h
  · simp [firstLine, e.head_line, e.prose.first_line]
  · obtain ⟨l, hl, rfl⟩ := List.mem_map.1 h
    simp [e.prose.more_line l hl]

theorem isBlock_lines (e : WrittenEntry) : IsBlock 4 (e.firstLine, e.moreLines) := by
  refine ⟨⟨?_, ?_⟩, fun l hl => ?_⟩
  · have hcolon : ':' ∈ e.firstLine := by simp [firstLine]
    rw [← Bool.not_eq_true, Text.isBlankLine_iff]
    exact fun hblank => absurd (hblank _ hcolon) (by decide)
  · obtain ⟨c, rest, hhead, hc⟩ := e.head_filled
    rw [firstLine, Text.indentation_append_of_isBlank (Text.isBlank_replicate (by decide) 4), hhead,
      List.cons_append, Text.indentation_cons hc, List.length_replicate]
  · obtain ⟨line, hline, rfl⟩ := List.mem_map.1 hl
    rw [Text.indentation_append_of_isBlank (Text.isBlank_replicate (by decide) 8),
      List.length_replicate, ← Bool.not_eq_true, Text.isBlankLine_iff]
    refine ⟨fun hblank => e.prose.more_filled line hline fun c hc => ?_, by omega⟩
    exact hblank c (List.mem_append_right _ hc)

/-- The description of an entry, put together from what is left beside its head and the lines
below. -/
theorem HeldBy.flatten_eq (h : e.HeldBy b) :
    flatten (Text.trimEnd (' ' :: e.prose.first) :: b.2) = e.prose.text := by
  rw [← e.prose.flatten_eq]
  refine flatten_congr ?_
  rw [List.map_cons, h.map_trim_more, Text.trim_trimEnd, List.map_cons]
  exact congrArg (· :: _) (Text.trim_of_isBlank_append (Text.isBlank_replicate (by decide) 1))

end WrittenEntry

theorem entries_read {es : List WrittenEntry} {gap : Nat} {reads : List Line}
    (h : List.Forall₂ Text.ReadAs (es.flatMap WrittenEntry.lines ++ List.replicate gap []) reads) :
    ∃ blocks, List.Forall₂ WrittenEntry.HeldBy es blocks
      ∧ entries reads = blocks.map fun b => (Text.trim b.1, b.2) := by
  have hlines : es.flatMap WrittenEntry.lines
      = (es.map fun e => (e.firstLine, e.moreLines)).flatMap fun b => b.1 :: b.2 := by
    rw [List.flatMap_map]
    rfl
  have hwritten : ∀ w ∈ es.map fun e => (e.firstLine, e.moreLines), IsBlock 4 w :=
    List.forall_mem_map.2 fun e _ => e.isBlock_lines
  rw [hlines] at h
  obtain ⟨blocks, blanks, hblocks, rfl, hblock, hblank⟩ := exists_blocks_blanks hwritten h
  rw [List.forall₂_map_left_iff] at hblocks
  exact ⟨blocks, hblocks, by rw [entries, group_blocks hblock hblank]⟩

theorem argument?_read {a : WrittenArgument} {b : Line × List Line} (h : a.written.HeldBy b) :
    argument? (Text.trim b.1, b.2) = some a.entry := by
  have htext : Text.trim b.1 = a.name ++ ' ' :: '('
      :: (a.typeText ++ ')' :: ':' :: Text.trimEnd (' ' :: a.prose.first)) := by
    rw [h.trim_first]
    simp [WrittenArgument.written]
  have hblank : ∀ t, Text.trimStart (' ' :: '(' :: t) = '(' :: t := fun t => rfl
  have hflatten : flatten (Text.trimEnd (' ' :: a.prose.first) :: b.2) = a.prose.text :=
    h.flatten_eq
  simp only [argument?, htext, argumentName?_name, Option.bind_eq_bind, Option.bind_some, hblank,
    closingAtColon?_append a.type_closed, hflatten]
  rfl

theorem result_read {r : WrittenResult} {b : Line × List Line} (h : r.written.HeldBy b) :
    result (Text.trim b.1, b.2) = r.entry := by
  have hsplit : Text.splitAtFirst [':'] (Text.trim b.1)
      = some (r.typeText, Text.trimEnd (' ' :: r.prose.first)) := by
    rw [h.trim_first]
    exact Text.splitAtFirst_append r.type_colon
  have hflatten : flatten (Text.trimEnd (' ' :: r.prose.first) :: b.2) = r.prose.text :=
    h.flatten_eq
  have htrimmed := r.type_trimmed
  obtain ⟨c, rest, htype⟩ := List.exists_cons_of_ne_nil r.type_ne_nil
  rw [htype] at hsplit htrimmed
  simp only [result, hsplit, hflatten, WrittenResult.entry, htype, htrimmed]

/-- Entries are read as written, in order, if each is. -/
theorem filterMap_entries {α : Type} {write : α → WrittenEntry} {entry : α → Entry}
    {read : Line × List Line → Option Entry}
    (hread : ∀ a b, (write a).HeldBy b → read (Text.trim b.1, b.2) = some (entry a))
    {written : List α} {gap : Nat} {reads : List Line}
    (h : List.Forall₂ Text.ReadAs
      ((written.map write).flatMap WrittenEntry.lines ++ List.replicate gap []) reads) :
    (entries reads).filterMap read = written.map entry := by
  obtain ⟨blocks, hblocks, heq⟩ := entries_read h
  rw [heq]
  rw [List.forall₂_map_left_iff] at hblocks
  clear h heq
  induction hblocks with
  | nil => rfl
  | cons hheld _ ih =>
    rw [List.map_cons, List.filterMap_cons, hread _ _ hheld, ih, List.map_cons]

/-! ## 4. Sections -/

namespace WrittenSection

variable (s : WrittenSection)

theorem title_not_return : '\r' ∉ s.title := by
  cases s <;> simp only [title, heading] <;> decide +kernel

theorem title_line : '\n' ∉ s.title := by
  cases s <;> simp only [title, heading] <;> decide +kernel

theorem heading?_title : heading? s.title = some s.heading := by
  cases s <;> simp only [title, heading] <;> decide +kernel

theorem kind_heading : Google.kind s.heading = s.kind := by
  cases s <;> simp only [heading, kind] <;> decide +kernel

theorem indentation_title : Text.indentation s.title = 0 := by
  cases s <;> simp only [title, heading] <;> decide +kernel

theorem isBlankLine_title : Text.isBlankLine s.title = false := by
  cases s <;> simp only [title, heading] <;> decide +kernel

theorem isUnder_title (s' : WrittenSection) : isUnder s.title s'.title = false := by
  rw [isUnder, isBlankLine_title, indentation_title, indentation_title]
  rfl

variable {s}

/-- Empty lines and all lines of entries, which are deeper, are under a title. -/
theorem isUnder_of_mem_body {gap : Nat} {line read : Line} (h : line ∈ s.body gap)
    (hread : Text.ReadAs line read) : isUnder s.title read = true := by
  rw [isUnder, Bool.or_eq_true, decide_eq_true_eq, s.indentation_title]
  rcases List.mem_append.1 h with h | h
  · obtain ⟨e, -, h⟩ := List.mem_flatMap.1 h
    obtain ⟨hfilled, hdeep⟩ := e.isBlock_lines.of_mem h
    rw [hread.indentation_eq hfilled]
    exact .inr (by omega)
  · rw [hread.isBlankLine_eq, List.eq_of_mem_replicate h]
    exact .inl rfl

theorem newline_not_mem {gap : Nat} {line : Line} (h : line ∈ s.lines gap) : '\n' ∉ line := by
  rcases List.mem_cons.1 h with rfl | h
  · exact s.title_line
  · rcases List.mem_append.1 h with h | h
    · obtain ⟨e, -, h⟩ := List.mem_flatMap.1 h
      exact e.newline_not_mem h
    · exact Text.not_mem_of_mem_replicate_nil h

end WrittenSection

/-- Sections are read in the way of their kind. -/
theorem arguments_of_kind {s : WrittenSection} {gap : Nat} {reads : List Line}
    (hkind : s.kind = .parameters ∨ s.kind = .attributes)
    (h : List.Forall₂ Text.ReadAs (s.body gap) reads) :
    (entries reads).filterMap argument? = s.entries := by
  cases s with
  | parameters written => exact filterMap_entries (fun _ _ hheld => argument?_read hheld) h
  | attributes written => exact filterMap_entries (fun _ _ hheld => argument?_read hheld) h
  | results written => simp [WrittenSection.kind] at hkind

theorem results_of_kind {s : WrittenSection} {gap : Nat} {reads : List Line}
    (hkind : s.kind = .results) (h : List.Forall₂ Text.ReadAs (s.body gap) reads) :
    (entries reads).map result = s.entries := by
  cases s with
  | parameters written => cases hkind
  | attributes written => cases hkind
  | results written =>
    rw [← List.filterMap_eq_map]
    exact filterMap_entries (fun _ _ hheld => congrArg some (result_read hheld)) h

/-- That a section has the heading of a written one and the lines read off its body. -/
def WrittenSection.FoundAs (gap : Nat) (w : WrittenSection) (s : Section) : Prop :=
  s.heading = w.heading ∧ List.Forall₂ Text.ReadAs (w.body gap) s.body

/-- Written sections are found again. -/
theorem sections_read {gap : Nat} {written : List WrittenSection} {reads : List Line}
    (h : List.Forall₂ Text.ReadAs (written.flatMap (WrittenSection.lines gap)) reads) :
    List.Forall₂ (WrittenSection.FoundAs gap) written (sections reads) := by
  induction written generalizing reads with
  | nil =>
    rw [List.forall₂_nil_left_iff.1 h, sections]
    exact .nil
  | cons w written ih =>
    rw [List.flatMap_cons] at h
    obtain ⟨mine, others, rfl, hmine, hothers⟩ := Text.ReadAs.exists_of_append h
    obtain ⟨title, body, htitle, hbody, rfl⟩ := List.forall₂_cons_left_iff.1 hmine
    rw [htitle.eq_of_not_mem w.title_not_return]
    have hunder : ∀ l ∈ body, isUnder w.title l = true := by
      intro l hl
      obtain ⟨line, hline, hread⟩ := Text.exists_of_mem_forall₂ hbody hl
      exact WrittenSection.isUnder_of_mem_body hline hread
    have hnext : ∀ l ∈ others.head?, isUnder w.title l = false := by
      cases written with
      | nil => simp [List.forall₂_nil_left_iff.1 hothers]
      | cons w' written =>
        obtain ⟨title', rest, htitle', -, rfl⟩ := List.forall₂_cons_left_iff.1 hothers
        simp [htitle'.eq_of_not_mem w'.title_not_return, w.isUnder_title w']
    rw [List.cons_append, sections, w.heading?_title]
    simp only [(cut_append hunder hnext).1, (cut_append hunder hnext).2]
    exact .cons ⟨rfl, hbody⟩ (ih hothers)

/-- Sections of a kind are read as written if their bodies are. -/
theorem entriesOf_read {gap : Nat} {written : List WrittenSection} {found : List Section}
    {read : List Line → List Entry} {wanted : SectionKind}
    (hread : ∀ (w : WrittenSection) body, w.kind = wanted →
      List.Forall₂ Text.ReadAs (w.body gap) body → read body = w.entries)
    (h : List.Forall₂ (WrittenSection.FoundAs gap) written found) :
    entriesOf kind read found wanted = entriesUnder wanted written := by
  refine entriesOf_written (fun w s hs => ?_) (fun w s hs hkind => hread w s.body hkind hs.2) h
  rw [hs.1, w.kind_heading]

/-! ## 5. Texts -/

def isText (l : Line) : Bool := (heading? l).isNone

/-- What is read off the lines of a text. -/
def parseLines (ls : List Line) : Parsed :=
  let found := sections (ls.dropWhile isText)
  let arguments := fun body => (entries body).filterMap argument?
  { description := Text.trim (joinLines (ls.takeWhile isText))
    parameters := entriesOf kind arguments found .parameters
    attributes := entriesOf kind arguments found .attributes
    results := entriesOf kind (fun body => (entries body).map result) found .results }

theorem parse_eq (t : List Char) : parse t = parseLines (Text.lines t) := rfl

theorem entries_concat_nil (body : List Line) : entries (body ++ [[]]) = entries body := by
  rw [entries, entries, filled_concat_nil, atBase_concat_nil]

/-- An empty line at the end changes nothing in the sections. -/
theorem entriesOf_sections_concat_nil {read : List Line → List Entry}
    (hread : ∀ body, read (body ++ [[]]) = read body) (ls : List Line) (wanted : SectionKind) :
    entriesOf kind read (sections (ls ++ [[]])) wanted
      = entriesOf kind read (sections ls) wanted := by
  induction ls using sections.induct with
  | case1 =>
    rw [List.nil_append, sections.eq_2, show heading? [] = none from rfl]
  | case2 l more hnone ih =>
    rw [List.cons_append, sections, sections, hnone]
    exact ih
  | case3 l more heading hsome ih =>
    rw [List.cons_append, sections, sections, hsome]
    simp only [entriesOf_cons]
    rcases cut_concat (l := more) (a := []) (show isUnder l [] = true from rfl) with
      ⟨htake, hdrop⟩ | ⟨htake, hdrop, hnone⟩
    · rw [htake, hdrop, ih]
    · rw [htake, hdrop, hnone, hread]

theorem parseLines_concat_nil (ls : List Line) : parseLines (ls ++ [[]]) = parseLines ls := by
  rcases cut_concat (l := ls) (a := []) (show isText [] = true from rfl) with
    ⟨htake, hdrop⟩ | ⟨htake, hdrop, hnone⟩
  · rw [parseLines, parseLines, htake, hdrop]
    congr 1
    · exact entriesOf_sections_concat_nil (fun body => by rw [entries_concat_nil]) _ _
    · exact entriesOf_sections_concat_nil (fun body => by rw [entries_concat_nil]) _ _
    · exact entriesOf_sections_concat_nil (fun body => by rw [entries_concat_nil]) _ _
  · rw [parseLines, parseLines, htake, hdrop, hnone, joinLines, Text.trim_joinWith_append]
    · rfl
    · exact List.forall_mem_singleton.2 Text.isBlank_nil

theorem splitOn_render (gap : Nat) (summary : WrittenSummary) (sections : List WrittenSection) :
    Text.splitOn '\n' (render gap summary sections)
      = Text.splitOn '\n' summary.text ++ List.replicate gap []
        ++ sections.flatMap (WrittenSection.lines gap) := by
  rw [render, joinLines, Text.splitOn_joinWith_cons, List.append_assoc]
  refine List.forall_mem_append.2 ⟨fun l hl => ?_, fun l hl => ?_⟩
  · exact Text.not_mem_of_mem_replicate_nil hl
  · obtain ⟨s, -, hl⟩ := List.mem_flatMap.1 hl
    exact s.newline_not_mem hl

/-- The lines above the sections are no headings. -/
theorem isText_of_mem_summary {summary : WrittenSummary} {gap : Nat} {l : Line}
    (h : l ∈ Text.splitOn '\n' summary.text ++ List.replicate gap []) : isText l = true := by
  rw [isText, Option.isNone_iff_eq_none]
  rcases List.mem_append.1 h with h | h
  · exact heading?_eq_none_iff.2 (summary.not_heading l h)
  · rw [List.eq_of_mem_replicate h]
    rfl

/-- **What is written in sections is read back.**  A summary and any number of sections in any
order, each with any number of entries, are read as the trimmed summary and exactly these entries in
order, each with its name, its trimmed type and the lines of its description that are not blank,
trimmed and put on one line.  It makes no difference how many empty lines are below the summary and
the sections, and so whether the text ends with a line feed. -/
theorem parse_render (gap : Nat) (summary : WrittenSummary) (sections : List WrittenSection) :
    parse (render gap summary sections)
      = { description := Text.trim summary.text
          parameters := entriesUnder .parameters sections
          attributes := entriesUnder .attributes sections
          results := entriesUnder .results sections } := by
  obtain ⟨reads, hreads, hlines⟩ := Text.exists_lines (render gap summary sections)
  have hparse : parse (render gap summary sections) = parseLines reads := by
    rw [parse_eq]
    rcases hlines with hlines | hlines
    · rw [hlines]
    · rw [hlines, parseLines_concat_nil]
  rw [splitOn_render] at hreads
  obtain ⟨before, after, rfl, hbefore, hafter⟩ := Text.ReadAs.exists_of_append hreads
  have hsummary : before = Text.splitOn '\n' summary.text ++ List.replicate gap [] := by
    refine Text.ReadAs.eq_of_forall_not_mem hbefore (List.forall_mem_append.2 ⟨?_, ?_⟩)
    · exact fun l hl hreturn => summary.not_return (Text.mem_of_mem_splitOn hl hreturn)
    · exact fun l hl => Text.not_mem_of_mem_replicate_nil hl
  subst hsummary
  have hnext : ∀ l ∈ after.head?, isText l = false := by
    cases sections with
    | nil => simp [List.forall₂_nil_left_iff.1 hafter]
    | cons s sections =>
      obtain ⟨title, rest, htitle, -, rfl⟩ := List.forall₂_cons_left_iff.1 hafter
      simp [isText, htitle.eq_of_not_mem s.title_not_return, s.heading?_title]
  obtain ⟨htake, hdrop⟩ := cut_append (fun l hl => isText_of_mem_summary hl) hnext
  have hfound := sections_read hafter
  rw [hparse, parseLines, htake, hdrop]
  congr 1
  · rw [joinLines, Text.trim_joinWith_append, Text.joinWith_splitOn]
    intro l hl
    rw [List.eq_of_mem_replicate hl]
    exact Text.isBlank_nil
  · exact entriesOf_read (fun w body hkind hbody => arguments_of_kind (.inl hkind) hbody) hfound
  · exact entriesOf_read (fun w body hkind hbody => arguments_of_kind (.inr hkind) hbody) hfound
  · exact entriesOf_read (fun w body hkind hbody => results_of_kind hkind hbody) hfound

namespace Sample

def summary : WrittenSummary where
  text := "Resample a series.".toList
  not_return := by decide +kernel
  not_heading := fun l hl => heading?_eq_none_iff.1 (by revert l; decide +kernel)

/-- An argument whose type has parentheses, with a line that looks like a heading. -/
def options : WrittenArgument where
  stars := 2
  word := "options".toList
  typeText := "tuple (int, int) or None".toList
  prose :=
    { first := [], more := ["Returns:".toList, "Passed on.".toList]
      first_line := by decide, more_line := by decide +kernel, more_filled := by decide +kernel }
  stars_le := by decide
  word_ne_nil := by decide +kernel
  word_isWord := List.all_eq_true.1 (by decide +kernel)
  type_line := by decide +kernel
  type_closed := fun before blanks after heq => by
    have hcolon : ':' ∈ "tuple (int, int) or None".toList := by simp [heq]
    exact absurd hcolon (by decide +kernel)

def series : WrittenResult where
  typeText := "Series".toList
  prose :=
    { first := "The series (new): a copy.".toList, more := []
      first_line := by decide +kernel, more_line := by decide, more_filled := by decide }
  type_ne_nil := by decide +kernel
  type_trimmed := by decide +kernel
  type_line := by decide +kernel
  type_colon := by decide +kernel

/-- A docstring with empty lines between its parts. -/
theorem resampled_series_read :
    parse ("Resample a series.\n\nArgs:\n    **options (tuple (int, int) or None): \n"
        ++ "        Returns:\n        Passed on.\n\n"
        ++ "Returns:\n    Series: The series (new): a copy.\n").toList
      = { description := "Resample a series.".toList
          parameters := [{ name := "**options".toList, typeText := "tuple (int, int) or None".toList
                           description := "Returns: Passed on.".toList }]
          results := [{ typeText := "Series".toList
                        description := "The series (new): a copy.".toList }] } := by
  have hread := parse_render 1 summary [.parameters [options], .results [series]]
  have htext : render 1 summary [.parameters [options], .results [series]]
      = ("Resample a series.\n\nArgs:\n    **options (tuple (int, int) or None): \n"
        ++ "        Returns:\n        Passed on.\n\n"
        ++ "Returns:\n    Series: The series (new): a copy.\n").toList := by
    decide +kernel
  rw [← htext, hread]
  decide +kernel

end Sample

end ApiSurface.Docstring.Google
