import ApiSurface.Proofs.OrderFreedom
/-!
# Package entries

That a file is the entry of its package is told in two ways.  Its module id says so, if the last
segment is `__init__`; and the path says so, if the last piece of it is `__init__.py` or
`__init__.pyi`.  The id decides how everything in the file is called.  The path decides whether the
file offers what it imports, and from where its relative imports count.

An id is taken from a path written with either separator, but the last piece of a path is looked for
behind slashes alone.  So the two agree, except where the last separator is a backslash before the
name of an entry (`entry_recognized_iff`).
-/

namespace ApiSurface

/-! ## 1. Last pieces -/

namespace Text

variable {sep : Char} {t last ending : List Char}

/-- What stands behind the last separator. -/
def lastPiece (sep : Char) (t : List Char) : List Char := (splitOn sep t).getLast?.getD []

theorem lastPiece_of_not_mem (h : sep ∉ t) : lastPiece sep t = t := by
  rw [lastPiece, splitOn_eq, List.splitOn_eq_singleton h]
  rfl

theorem lastPiece_append_cons (s t : List Char) :
    lastPiece sep (s ++ sep :: t) = lastPiece sep t := by
  have hne : t.splitOn sep ≠ [] := List.splitOn_ne_nil sep t
  rw [lastPiece, splitOn_eq, List.splitOn_append_cons_self, List.getLast?_append_of_ne_nil _ hne,
    ← splitOn_eq]
  rfl

/-- A text is its last piece, with nothing or something that ends in a separator before it. -/
theorem lastPiece_cases (sep : Char) (t : List Char) :
    sep ∉ lastPiece sep t
      ∧ (t = lastPiece sep t ∨ ∃ before, t = before ++ sep :: lastPiece sep t) := by
  by_cases hsep : sep ∈ t
  · -- The last separator is the first one from behind.
    obtain ⟨last, before, heq, hlast⟩ := List.eq_append_cons_of_mem (List.mem_reverse.2 hsep)
    have ht : t = before.reverse ++ sep :: last.reverse := by
      rw [← List.reverse_reverse t, heq]
      simp
    have hpiece : lastPiece sep t = last.reverse := by
      rw [ht, lastPiece_append_cons, lastPiece_of_not_mem (mt List.mem_reverse.1 hlast)]
    rw [hpiece]
    exact ⟨mt List.mem_reverse.1 hlast, .inr ⟨before.reverse, ht⟩⟩
  · rw [lastPiece_of_not_mem hsep]
    exact ⟨hsep, .inl rfl⟩

theorem lastPiece_eq_iff (h : sep ∉ last) :
    lastPiece sep t = last ↔ t = last ∨ ∃ before, t = before ++ sep :: last := by
  constructor
  · rintro rfl
    exact (lastPiece_cases sep t).2
  · rintro (rfl | ⟨before, rfl⟩)
    · exact lastPiece_of_not_mem h
    · rw [lastPiece_append_cons, lastPiece_of_not_mem h]

theorem lastPiece_append (h : sep ∉ ending) (t : List Char) :
    lastPiece sep (t ++ ending) = lastPiece sep t ++ ending := by
  obtain ⟨hsep, ht⟩ := lastPiece_cases sep t
  have hboth : sep ∉ lastPiece sep t ++ ending := by
    rw [List.mem_append, not_or]
    exact ⟨hsep, h⟩
  rw [lastPiece_eq_iff hboth]
  obtain ht | ⟨before, ht⟩ := ht
  · exact .inl (by rw [← ht])
  · refine .inr ⟨before, ?_⟩
    conv_lhs => rw [ht]
    rw [List.append_assoc, List.cons_append]

theorem lastPiece_suffix (sep : Char) (t : List Char) : lastPiece sep t <:+ t := by
  obtain ⟨-, ht | ⟨before, ht⟩⟩ := lastPiece_cases sep t
  · exact ⟨[], ht.symm⟩
  · exact ⟨before ++ [sep], by rw [List.append_assoc]; exact ht.symm⟩

end Text

/-! ## 2. Ids of entries -/

namespace Id

/-- Either separator becomes a slash. -/
def slash (c : Char) : Char := if c == '\\' then '/' else c

/-- The endings of source files. -/
def endings : List (List Char) := [".pyi".toList, ".py".toList]

def IsSourcePath (path : String) : Prop := ∃ ending ∈ endings, ending <:+ path.toList

instance : DecidablePred IsSourcePath := fun path =>
  inferInstanceAs (Decidable (∃ ending ∈ endings, ending <:+ path.toList))

/-- That an id names the entry of a package. -/
def IsEntry (id : String) : Prop := Text.lastPiece '/' id.toList = "__init__".toList

instance : DecidablePred IsEntry := fun id =>
  inferInstanceAs (Decidable (Text.lastPiece '/' id.toList = "__init__".toList))

theorem lastPiece_dropHere (t : List Char) :
    Text.lastPiece '/' (dropHere t) = Text.lastPiece '/' t := by
  fun_induction dropHere t with
  | case1 t ih =>
    rw [ih]
    exact (Text.lastPiece_append_cons ['.'] t).symm
  | case2 t h => rfl

theorem dropEnding?_eq_some {ending t stem : List Char} :
    dropEnding? ending t = some stem ↔ t = stem ++ ending := by
  rw [dropEnding?, Option.map_eq_some_iff]
  constructor
  · rintro ⟨rest, hrest, rfl⟩
    rw [Text.dropStart?_eq_some] at hrest
    rw [← List.reverse_reverse t, hrest, List.reverse_append, List.reverse_reverse]
  · rintro rfl
    refine ⟨stem.reverse, ?_, List.reverse_reverse stem⟩
    rw [Text.dropStart?_eq_some, List.reverse_append]

theorem separators_not_mem_endings : ∀ ending ∈ endings, '/' ∉ ending ∧ '\\' ∉ ending := by
  decide

/-- Endings are told apart by their last characters. -/
theorem endings_apart : ∀ a ∈ endings, ∀ b ∈ endings, a.getLast? = b.getLast? → a = b := by
  decide

theorem endings_ne_nil : ∀ ending ∈ endings, ending ≠ [] := by
  decide

theorem map_slash_of_not_mem {t : List Char} (h : '\\' ∉ t) : t.map slash = t := by
  induction t with
  | nil => rfl
  | cons c t ih =>
    rw [List.mem_cons, not_or] at h
    have hc : slash c = c := if_neg (by simpa using Ne.symm h.1)
    rw [List.map_cons, hc, ih h.2]

theorem map_slash_eq_iff {t file : List Char} (hslash : '/' ∉ file) (hback : '\\' ∉ file) :
    t.map slash = file ↔ t = file := by
  constructor
  · rintro rfl
    have ht : '\\' ∉ t := fun hmem => hslash (List.mem_map_of_mem hmem)
    exact (map_slash_of_not_mem ht).symm
  · rintro rfl
    exact map_slash_of_not_mem hback

/-- A file has a name behind either separator if it has it behind the last slash, or if a backslash
stands before the name. -/
theorem lastPiece_map_slash_iff {t file : List Char} (hslash : '/' ∉ file) (hback : '\\' ∉ file) :
    Text.lastPiece '/' (t.map slash) = file
      ↔ Text.lastPiece '/' t = file ∨ '\\' :: file <:+ t := by
  rw [Text.lastPiece_eq_iff hslash, Text.lastPiece_eq_iff hslash, map_slash_eq_iff hslash hback]
  constructor
  · rintro (heq | ⟨before, heq⟩)
    · exact .inl (.inl heq)
    · obtain ⟨start, rest, rfl, -, hrest⟩ := List.map_eq_append_iff.1 heq
      obtain ⟨c, name, rfl, hc, hname⟩ := List.map_eq_cons_iff.1 hrest
      rw [map_slash_eq_iff hslash hback] at hname
      subst hname
      by_cases hback' : c = '\\'
      · exact .inr ⟨start, by rw [hback']⟩
      · have hkept : slash c = c := if_neg (by simpa using hback')
        exact .inl (.inr ⟨start, by rw [← hc, hkept]⟩)
  · rintro ((heq | ⟨before, rfl⟩) | ⟨before, rfl⟩)
    · exact .inl heq
    all_goals
      refine .inr ⟨before.map slash, ?_⟩
      rw [List.map_append, List.map_cons, map_slash_of_not_mem hback]
      rfl

/-- The path of a source file is its id with an ending behind it, up to separators and what is
dropped from the start. -/
theorem exists_ofPath {path : String} (h : IsSourcePath path) :
    ∃ ending ∈ endings, dropHere (path.toList.map slash) = (ofPath path).toList ++ ending := by
  obtain ⟨ending, hending, before, hpath⟩ := h
  obtain ⟨hslash, hback⟩ := separators_not_mem_endings ending hending
  have hkept : ending <:+ dropHere (path.toList.map slash) := by
    have hlast := lastPiece_dropHere (path.toList.map slash)
    rw [← hpath, List.map_append, map_slash_of_not_mem hback, Text.lastPiece_append hslash] at hlast
    rw [← hpath, List.map_append, map_slash_of_not_mem hback]
    exact (hlast ▸ List.suffix_append _ ending).trans (Text.lastPiece_suffix '/' _)
  obtain ⟨stem, hstem⟩ := hkept
  have hdropped : dropEnding? ending (dropHere (path.toList.map slash)) = some stem :=
    dropEnding?_eq_some.2 hstem.symm
  have hid : (ofPath path).toList
      = ((dropEnding? ".pyi".toList (dropHere (path.toList.map slash))).orElse fun _ =>
          dropEnding? ".py".toList (dropHere (path.toList.map slash))).getD
            (dropHere (path.toList.map slash)) := String.toList_ofList
  rw [hid]
  cases hpyi : dropEnding? ".pyi".toList (dropHere (path.toList.map slash)) with
  | some stem => exact ⟨".pyi".toList, by decide, dropEnding?_eq_some.1 hpyi⟩
  | none =>
    have hpy : ending = ".py".toList := by
      rw [endings, List.mem_pair] at hending
      obtain rfl | rfl := hending
      · rw [hpyi] at hdropped
        cases hdropped
      · rfl
    subst hpy
    refine ⟨".py".toList, by decide, ?_⟩
    rw [hdropped]
    exact hstem.symm

/-- The name of the file that an entry is kept in. -/
def entryFile (ending : List Char) : List Char := "__init__".toList ++ ending

theorem getLast?_append_ending {ending : List Char} (h : ending ∈ endings) (name : List Char) :
    (name ++ ending).getLast? = ending.getLast? :=
  List.getLast?_append_of_ne_nil name (endings_ne_nil ending h)

theorem eq_init_iff {name ending : List Char} (hending : ending ∈ endings) :
    name = "__init__".toList ↔ ∃ ending' ∈ endings, name ++ ending = entryFile ending' := by
  constructor
  · intro hname
    refine ⟨ending, hending, ?_⟩
    unfold entryFile
    rw [hname]
  · rintro ⟨ending', hending', heq⟩
    have hlasts : ending.getLast? = ending'.getLast? :=
      calc ending.getLast?
          = (name ++ ending).getLast? := (getLast?_append_ending hending name).symm
        _ = (entryFile ending').getLast? := congrArg List.getLast? heq
        _ = ending'.getLast? := getLast?_append_ending hending' _
    obtain rfl := endings_apart ending hending ending' hending' hlasts
    exact List.append_cancel_right heq

theorem lastPiece_of_dropHere {t stem ending : List Char} (hending : ending ∈ endings)
    (h : dropHere t = stem ++ ending) :
    Text.lastPiece '/' t = Text.lastPiece '/' stem ++ ending := by
  rw [← lastPiece_dropHere, h, Text.lastPiece_append (separators_not_mem_endings ending hending).1]

theorem isEntry_ofPath_iff {path : String} (h : IsSourcePath path) :
    IsEntry (ofPath path)
      ↔ ∃ ending ∈ endings, Text.lastPiece '/' (path.toList.map slash) = entryFile ending := by
  obtain ⟨ending, hending, hpath⟩ := exists_ofPath h
  have hlast := lastPiece_of_dropHere hending hpath
  refine (eq_init_iff hending).trans (exists_congr fun ending' => and_congr_right fun _ => ?_)
  exact Eq.congr hlast.symm rfl

end Id

/-! ## 3. Entries among files -/

namespace SourceFile

variable {f : SourceFile}

/-- That the last separator in the path of an entry is a backslash. -/
def IsBehindBackslash (f : SourceFile) : Prop :=
  ∃ ending ∈ Id.endings, '\\' :: Id.entryFile ending <:+ f.path.toList

instance (f : SourceFile) : Decidable f.IsBehindBackslash :=
  inferInstanceAs (Decidable (∃ ending ∈ Id.endings, '\\' :: Id.entryFile ending <:+ f.path.toList))

theorem isAggregator_iff :
    f.isAggregator = true
      ↔ ∃ ending ∈ Id.endings, Text.lastPiece '/' f.path.toList = Id.entryFile ending := by
  have hfile : ∀ file : String, String.ofList (Text.lastPiece '/' f.path.toList) = file
      ↔ Text.lastPiece '/' f.path.toList = file.toList := by
    intro file
    rw [← String.toList_inj, String.toList_ofList]
  have hunfold : f.isAggregator = true
      ↔ String.ofList (Text.lastPiece '/' f.path.toList) = "__init__.py"
        ∨ String.ofList (Text.lastPiece '/' f.path.toList) = "__init__.pyi" := by
    unfold isAggregator
    rw [Bool.or_eq_true, beq_iff_eq, beq_iff_eq]
    exact Iff.rfl
  have hpy : "__init__.py".toList = Id.entryFile ".py".toList := by decide
  have hpyi : "__init__.pyi".toList = Id.entryFile ".pyi".toList := by decide
  rw [hunfold, hfile, hfile, hpy, hpyi]
  constructor
  · rintro (h | h)
    · exact ⟨".py".toList, by decide, h⟩
    · exact ⟨".pyi".toList, by decide, h⟩
  · rintro ⟨ending, hending, h⟩
    rw [Id.endings, List.mem_pair] at hending
    obtain rfl | rfl := hending
    · exact .inr h
    · exact .inl h

theorem separators_not_mem_entryFile {ending : List Char} (h : ending ∈ Id.endings) :
    '/' ∉ Id.entryFile ending ∧ '\\' ∉ Id.entryFile ending := by
  revert ending
  decide

/-- The id says that a file is an entry if its path does, and if a backslash keeps it from doing
so. -/
theorem isEntry_iff (h : Id.IsSourcePath f.path) :
    Id.IsEntry (Id.ofPath f.path) ↔ f.isAggregator = true ∨ f.IsBehindBackslash := by
  rw [Id.isEntry_ofPath_iff h, isAggregator_iff, IsBehindBackslash, ← exists_or]
  refine exists_congr fun ending => ?_
  rw [← and_or_left]
  refine and_congr_right fun hending => ?_
  obtain ⟨hslash, hback⟩ := separators_not_mem_entryFile hending
  exact Id.lastPiece_map_slash_iff hslash hback

theorem not_isAggregator (h : f.IsBehindBackslash) : f.isAggregator = false := by
  obtain ⟨ending, hending, before, hpath⟩ := h
  rw [← Bool.not_eq_true, isAggregator_iff]
  rintro ⟨ending', hending', hlast⟩
  have hslash : '/' ∉ '\\' :: Id.entryFile ending := by
    rw [List.mem_cons, not_or]
    exact ⟨by decide, (separators_not_mem_entryFile hending).1⟩
  have hback := (separators_not_mem_entryFile hending').2
  rw [← hlast, ← hpath, Text.lastPiece_append hslash] at hback
  exact hback (List.mem_append_right _ List.mem_cons_self)

theorem isAggregator_iff_isEntry (h : Id.IsSourcePath f.path) :
    (f.isAggregator = true ↔ Id.IsEntry (Id.ofPath f.path)) ↔ ¬ f.IsBehindBackslash := by
  have hback := f.not_isAggregator
  rw [isEntry_iff h]
  constructor
  · intro hagree hbehind
    have haggregator := hagree.2 (.inr hbehind)
    rw [hback hbehind] at haggregator
    cases haggregator
  · intro hnot
    rw [or_iff_left hnot]

/-! ## 4. What entries do -/

/-- That a file adds entries for its imports, under its id, exactly if `offers` holds. -/
def OffersImportsIff (f : SourceFile) (offers : Prop) : Prop :=
  ∀ (ix : PackageIndex) (key : String) (e : ReexportEntry),
    e ∈ (ix.addScan f.scan).reexports.under key
      ↔ e ∈ ix.reexports.under key
        ∨ offers ∧ ∃ r ∈ f.imports, r.StandsUnder (Id.ofPath f.path) key e

theorem offersImportsIff_isAggregator (f : SourceFile) :
    f.OffersImportsIff (f.isAggregator = true) := by
  intro ix key e
  exact PackageIndex.mem_under_addScan

theorem OffersImportsIff.congr {p q : Prop} (h : f.OffersImportsIff p) (hpq : p ↔ q) :
    f.OffersImportsIff q := propext hpq ▸ h

/-- The parts of a file's dotted name that are not empty. -/
def nameParts (f : SourceFile) : List String :=
  (Text.components f.fullname).filter fun p => !p.isEmpty

/-- The package that a file belongs to, by its id: an entry has the name of its package. -/
def package (f : SourceFile) : List String :=
  if Id.IsEntry (Id.ofPath f.path) then f.nameParts else f.nameParts.dropLast

end SourceFile

/-- What a relative import of something in a package imports. -/
def ImportRecord.originIn (r : ImportRecord) (package : List String) : String :=
  let module := Text.joinDots (package ++ if r.writtenModule.isEmpty then [] else [r.writtenModule])
  if r.kind = .symbol then Text.qualify module r.name else module

namespace SourceFile

variable {f : SourceFile}

/-- That relative imports count from a package: one dot is the package itself, and each further dot
one package up. -/
def CountsFrom (f : SourceFile) (package : List String) : Prop :=
  ∀ r ∈ f.imports, ∀ up, r.relative = up + 1 →
    r.origin = r.originIn (package.take (package.length - up))

theorem origin_of_relative {r : ImportRecord} (hr : r ∈ f.imports) (hrelative : r.relative ≠ 0) :
    r.origin = r.originIn (f.nameParts.take
      (f.nameParts.length - if f.isAggregator then r.relative - 1 else r.relative)) := by
  obtain ⟨s, -, hr⟩ := List.mem_flatMap.1 hr
  unfold importsOf at hr
  split at hr
  · obtain ⟨n, -, rfl⟩ := List.mem_map.1 hr
    exact absurd rfl hrelative
  · obtain ⟨n, -, rfl⟩ := List.mem_map.1 hr
    dsimp only at hrelative ⊢
    rw [resolveRelative, if_neg hrelative, ImportRecord.originIn, if_pos rfl]
    rfl
  · obtain rfl := List.mem_singleton.1 hr
    dsimp only at hrelative ⊢
    rw [resolveRelative, if_neg hrelative, ImportRecord.originIn,
      if_neg (show ImportKind.wildcard ≠ .symbol by decide)]
    rfl
  · cases hr

theorem countsFrom_of_isAggregator (h : f.isAggregator = true) : f.CountsFrom f.nameParts := by
  intro r hr up hup
  have horigin := origin_of_relative hr (by omega)
  rwa [if_pos h, hup, Nat.add_sub_cancel] at horigin

theorem countsFrom_of_not_isAggregator (h : f.isAggregator = false) :
    f.CountsFrom f.nameParts.dropLast := by
  intro r hr up hup
  have horigin := origin_of_relative hr (by omega)
  have htake : f.nameParts.dropLast.take (f.nameParts.dropLast.length - up)
      = f.nameParts.take (f.nameParts.length - (up + 1)) := by
    rw [List.length_dropLast, List.dropLast_eq_take, List.take_take]
    congr 1
    omega
  rwa [if_neg (by rw [h]; decide), hup, ← htake] at horigin

end SourceFile

/-! ## 5. The result -/

/-- **Path and id agree on entries unless a backslash comes between.**  Where they agree, the files
whose ids name entries are those that offer their imports, and relative imports count from the
package of the file.  Otherwise the id names an entry, but the file offers nothing, and its relative
imports count from one package further up. -/
theorem entry_recognized_iff (f : SourceFile) (hpath : Id.IsSourcePath f.path) :
    ((f.isAggregator = true ↔ Id.IsEntry (Id.ofPath f.path)) ↔ ¬ f.IsBehindBackslash)
    ∧ (¬ f.IsBehindBackslash →
        f.OffersImportsIff (Id.IsEntry (Id.ofPath f.path)) ∧ f.CountsFrom f.package)
    ∧ (f.IsBehindBackslash →
        Id.IsEntry (Id.ofPath f.path) ∧ f.OffersImportsIff False
          ∧ f.CountsFrom f.package.dropLast) := by
  have hiff := SourceFile.isAggregator_iff_isEntry hpath
  refine ⟨hiff, ?_, ?_⟩
  · intro hback
    have hagree := hiff.2 hback
    refine ⟨f.offersImportsIff_isAggregator.congr hagree, ?_⟩
    unfold SourceFile.package
    split
    · rename_i hentry
      exact SourceFile.countsFrom_of_isAggregator (hagree.2 hentry)
    · rename_i hentry
      exact SourceFile.countsFrom_of_not_isAggregator (Bool.not_eq_true _ ▸ mt hagree.1 hentry)
  · intro hback
    have hplain := SourceFile.not_isAggregator hback
    have hentry := (SourceFile.isEntry_iff hpath).2 (.inr hback)
    refine ⟨hentry, f.offersImportsIff_isAggregator.congr (by simp [hplain]), ?_⟩
    rw [SourceFile.package, if_pos hentry]
    exact SourceFile.countsFrom_of_not_isAggregator hplain

namespace Sample

/-- A package's entry, which imports a class from a module of the package. -/
def entryAt (path : String) : SourceFile :=
  ⟨path, "pkg", none, [.importFrom ⟨"impl", 1, [⟨"C", none⟩]⟩]⟩

/-- A backslash further up does no harm. -/
theorem mixed_separators_recognized :
    Id.IsSourcePath (entryAt "src\\pkg/__init__.py").path
    ∧ ¬ (entryAt "src\\pkg/__init__.py").IsBehindBackslash
    ∧ Id.ofPath (entryAt "src\\pkg/__init__.py").path = "src/pkg/__init__"
    ∧ (entryAt "src\\pkg/__init__.py").isAggregator = true
    ∧ (entryAt "src\\pkg/__init__.py").CountsFrom ["pkg"]
    ∧ (entryAt "src\\pkg/__init__.py").imports.map ImportRecord.origin = ["pkg.impl.C"] := by
  have hpath : Id.IsSourcePath (entryAt "src\\pkg/__init__.py").path := by decide +kernel
  have hback : ¬ (entryAt "src\\pkg/__init__.py").IsBehindBackslash := by decide +kernel
  have hid : Id.ofPath (entryAt "src\\pkg/__init__.py").path = "src/pkg/__init__" := by
    decide +kernel
  obtain ⟨hiff, hkept, -⟩ := entry_recognized_iff _ hpath
  have hentry : Id.IsEntry (Id.ofPath (entryAt "src\\pkg/__init__.py").path) := by
    rw [hid]
    decide +kernel
  have hpackage : (entryAt "src\\pkg/__init__.py").package = ["pkg"] := by
    rw [SourceFile.package, if_pos hentry]
    decide +kernel
  refine ⟨hpath, hback, hid, (hiff.2 hback).2 hentry, hpackage ▸ (hkept hback).2, ?_⟩
  decide +kernel

/-- With a backslash before the name, the imports of an entry are not offered, and are looked for
outside the package. -/
theorem entry_behind_backslash_missed :
    Id.IsSourcePath (entryAt "pkg\\__init__.py").path
    ∧ Id.ofPath (entryAt "pkg\\__init__.py").path = "pkg/__init__"
    ∧ ¬ ((entryAt "pkg\\__init__.py").isAggregator = true
      ↔ Id.IsEntry (Id.ofPath (entryAt "pkg\\__init__.py").path))
    ∧ (PackageIndex.build [(entryAt "pkg\\__init__.py").scan]).reexports.isEmpty = true
    ∧ (entryAt "pkg\\__init__.py").imports.map ImportRecord.origin = ["impl.C"] := by
  refine ⟨?_, ?_, ?_, ?_, ?_⟩ <;> decide +kernel

end Sample

end ApiSurface
