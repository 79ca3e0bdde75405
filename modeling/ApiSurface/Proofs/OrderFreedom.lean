import ApiSurface.Proofs.IdClashes
import ApiSurface.Proofs.ReexportQuery
import Mathlib.Data.List.Nodup
/-!
# Order does not matter

Two orders are left to whoever calls the analysis: the order in which the files of a package are
indexed, in which portions and by how many indexes that are merged later; and the order in which the
files are supplied.  Neither can be seen in what comes out.

An index has its keys and names in the order in which they came, and so are the entries listed under
a key.  What matters is which entries and which meanings there are: adding an import or a file adds
what it contributes (`Portion.Records`, `Portion.Binds`), and so does merging, in whatever order the
keys and names of the other index are gone through.  Queries sort what they find, and no key is
there without an entry; so all answers are determined by which entry stands under which key and
which meaning under which name (`answersAlike_of_mem`), and these are told by the portions.  Even
how often one of them was added is forgotten.  The files, on the other hand, are sorted before
anything else is done with them, and files with different paths have only one order.
-/

namespace ApiSurface

/-! ## 1. Portions of an index -/

/-- What an index is collected from: a single import of some module, or a whole file. -/
inductive Portion
  | record (moduleId : String) (record : ImportRecord)
  | file (scan : FileScan)

namespace Portion

/-- That a portion contributes an entry under a key.  Of files, only package entries do. -/
def Records (key : String) (e : ReexportEntry) : Portion → Prop
  | .record moduleId r => r.StandsUnder moduleId key e
  | .file s => s.isAggregator = true ∧ ∃ r ∈ s.imports, r.StandsUnder s.moduleId key e

/-- That a portion contributes a meaning of a name: by an import that binds it, or by a class. -/
def Binds (name qname : String) : Portion → Prop
  | .record _ _ => False
  | .file s => (∃ r ∈ s.imports, r.kind ≠ .wildcard ∧ r.boundName = name ∧ r.origin = qname)
    ∨ (name, qname) ∈ s.classes

end Portion

/-- The portions of a collection, in the order in which they were added. -/
def Collection.portions : Collection → List Portion
  | .empty => []
  | .insert c moduleId record => c.portions ++ [.record moduleId record]
  | .scan c file => c.portions ++ [.file file]
  | .merge c d => c.portions ++ d.portions

/-! ## 2. What an index holds -/

section Contents

variable {key name qname : String} {e : ReexportEntry}

namespace Reexports

variable {r s : Reexports}

theorem mem_under_foldl_insert {moduleId : String} {records : List ImportRecord} :
    e ∈ (records.foldl (fun r record => r.insert moduleId record) r).under key
      ↔ e ∈ r.under key ∨ ∃ record ∈ records, record.StandsUnder moduleId key e := by
  induction records generalizing r with
  | nil => simp
  | cons record records ih =>
    simp only [List.foldl_cons, ih, mem_under_insert, List.mem_cons, exists_eq_or_imp, or_assoc]

/-- There is a key exactly where there is an entry. -/
theorem mem_keys_iff : key ∈ r.slots.toList.map Prod.fst ↔ ∃ e, e ∈ r.under key := by
  constructor
  · intro hkey
    obtain ⟨⟨k, entries⟩, hslot, rfl⟩ := List.mem_map.1 hkey
    rw [under, Slots.get_of_mem [] hslot]
    exact List.exists_mem_of_ne_nil _ (r.filled _ hslot)
  · rintro ⟨e, he⟩
    by_contra hkey
    rw [under, Slots.get_of_not_mem [] hkey] at he
    cases he

theorem under_eq_of_perm (h : r.slots.toList.Perm s.slots.toList) (key : String) :
    r.under key = s.under key :=
  Slots.get_eq_of_perm h [] key

theorem mem_query_iff {r : Reexports} {qname : String} :
    e ∈ r.query qname ↔ (∃ key ∈ probes qname, e ∈ r.under key) ∧ e.denotes qname = true := by
  rw [query, Ascending.mem_ofList_iff ReexportEntry.key_injective, List.mem_flatMap]
  simp only [List.mem_filter]
  tauto

/-- What a query answers, and how many keys there are, is determined by which entry stands under
which key. -/
theorem query_size_eq_of_mem (h : ∀ key e, e ∈ r.under key ↔ e ∈ s.under key) :
    (∀ qname, r.query qname = s.query qname) ∧ r.size = s.size := by
  constructor
  · intro qname
    refine congrArg Ascending.toList (Ascending.ext_mem fun e => ?_)
    show e ∈ r.query qname ↔ e ∈ s.query qname
    simp only [mem_query_iff, h]
  · have hkeys : (r.slots.toList.map Prod.fst).Perm (s.slots.toList.map Prod.fst) := by
      refine (List.perm_ext_iff_of_nodup r.slots.nodup_keys s.slots.nodup_keys).2 fun key => ?_
      simp only [mem_keys_iff, h]
    simpa [size] using hkeys.length_eq

end Reexports

namespace Aliases

variable {a b : Aliases}

theorem mem_candidates_insert {n q : String} :
    qname ∈ (a.insert n q).candidates name
      ↔ qname ∈ a.candidates name ∨ name = n ∧ qname = q := by
  rw [candidates, insert, Slots.get_change, candidates]
  split
  · rename_i hname
    rw [Ascending.mem_insert_iff fun _ _ => textKey_injective, and_iff_right hname, or_comm]
  · rename_i hname
    simp [hname]

theorem mem_candidates_foldl_insert {pairs : List (String × String)} :
    qname ∈ (pairs.foldl (fun a p => a.insert p.1 p.2) a).candidates name
      ↔ qname ∈ a.candidates name ∨ (name, qname) ∈ pairs := by
  induction pairs generalizing a with
  | nil => simp
  | cons p pairs ih =>
    rw [List.foldl_cons, ih, mem_candidates_insert, List.mem_cons, or_assoc, Prod.ext_iff]

/-- The two sets under a name are united, in whatever order the names are gone through. -/
theorem mem_candidates_merge :
    qname ∈ (a.merge b).candidates name
      ↔ qname ∈ a.candidates name ∨ qname ∈ b.candidates name := by
  have hunion : (a.merge b).slots.get .empty name
      = (a.slots.get .empty name).union (b.slots.get .empty name) := by
    refine Slots.get_foldl (fun a name => a.slots.get .empty name)
      (fun qnames known => known.union qnames) .empty (fun _ => rfl) ?_ a b.slots name
    intro a slot name
    exact a.slots.get_change .empty slot.1 name fun known => known.union slot.2
  rw [candidates, hunion, Ascending.mem_union_iff fun _ _ => textKey_injective, candidates,
    candidates]

theorem candidates_eq_of_perm (h : a.slots.toList.Perm b.slots.toList) (name : String) :
    a.candidates name = b.candidates name :=
  congrArg Ascending.toList (Slots.get_eq_of_perm h .empty name)

end Aliases

namespace PackageIndex

variable {ix : PackageIndex} {s : FileScan}

theorem mem_under_addScan :
    e ∈ (ix.addScan s).reexports.under key
      ↔ e ∈ ix.reexports.under key ∨ (Portion.file s).Records key e := by
  rw [addScan, Portion.Records]
  cases s.isAggregator with
  | false => simp
  | true => simpa using Reexports.mem_under_foldl_insert

theorem mem_candidates_addScan :
    qname ∈ (ix.addScan s).aliases.candidates name
      ↔ qname ∈ ix.aliases.candidates name ∨ (Portion.file s).Binds name qname := by
  rw [addScan, Aliases.mem_candidates_foldl_insert, List.mem_append, List.mem_map, Portion.Binds]
  simp [List.mem_filter, and_assoc]

end PackageIndex

/-- The indexes that a collection may give.  When an index is merged, its keys and its names may
come in any order. -/
inductive Collection.Gives : Collection → PackageIndex → Prop
  | empty : Gives .empty {}
  | insert {c : Collection} {ix : PackageIndex} (moduleId : String) (record : ImportRecord)
    (hc : Gives c ix) :
    Gives (.insert c moduleId record)
      { ix with reexports := ix.reexports.insert moduleId record }
  | scan {c : Collection} {ix : PackageIndex} (file : FileScan) (hc : Gives c ix) :
    Gives (.scan c file) (ix.addScan file)
  | merge {c d : Collection} {ix jx shuffled : PackageIndex} (hc : Gives c ix) (hd : Gives d jx)
    (hkeys : shuffled.reexports.slots.toList.Perm jx.reexports.slots.toList)
    (hnames : shuffled.aliases.slots.toList.Perm jx.aliases.slots.toList) :
    Gives (.merge c d) (ix.merge shuffled)

namespace Collection

variable {c d : Collection} {ix jx : PackageIndex}

theorem gives_index (c : Collection) : c.Gives c.index := by
  induction c with
  | empty => exact .empty
  | insert c moduleId record ih => exact .insert moduleId record ih
  | scan c file ih => exact .scan file ih
  | merge c d ihc ihd => exact .merge ihc ihd (.refl _) (.refl _)

/-- An entry stands under a key exactly if some portion put it there. -/
theorem Gives.mem_under (h : c.Gives ix) :
    e ∈ ix.reexports.under key ↔ ∃ p ∈ c.portions, p.Records key e := by
  induction h with
  | empty => exact iff_of_false List.not_mem_nil fun ⟨_, hp, _⟩ => List.not_mem_nil hp
  | insert moduleId record _ ih =>
    rw [Reexports.mem_under_insert, ih]
    simp [portions, or_and_right, exists_or, Portion.Records]
  | scan file _ ih =>
    rw [PackageIndex.mem_under_addScan, ih]
    simp [portions, or_and_right, exists_or]
  | merge _ _ hkeys _ ihc ihd =>
    rw [PackageIndex.merge, Reexports.mem_under_merge, Reexports.under_eq_of_perm hkeys, ihc, ihd]
    simp [portions, or_and_right, exists_or]

/-- A name has a meaning exactly if some portion gave it. -/
theorem Gives.mem_candidates (h : c.Gives ix) :
    qname ∈ ix.aliases.candidates name ↔ ∃ p ∈ c.portions, p.Binds name qname := by
  induction h with
  | empty => exact iff_of_false List.not_mem_nil fun ⟨_, hp, _⟩ => List.not_mem_nil hp
  | insert moduleId record _ ih =>
    rw [ih]
    simp [portions, or_and_right, exists_or, Portion.Binds]
  | scan file _ ih =>
    rw [PackageIndex.mem_candidates_addScan, ih]
    simp [portions, or_and_right, exists_or]
  | merge _ _ _ hnames ihc ihd =>
    rw [PackageIndex.merge, Aliases.mem_candidates_merge, Aliases.candidates_eq_of_perm hnames, ihc,
      ihd]
    simp [portions, or_and_right, exists_or]

end Collection

end Contents

/-! ## 3. Answers of an index -/

/-- That two indexes answer every question in the same way. -/
structure PackageIndex.AnswersAlike (ix jx : PackageIndex) : Prop where
  query : ∀ qname, ix.reexports.query qname = jx.reexports.query qname
  size : ix.reexports.size = jx.reexports.size
  isEmpty : ix.reexports.isEmpty = jx.reexports.isEmpty
  reexportedBy : ∀ qname, ix.reexportedBy qname = jx.reexportedBy qname
  resolve : ∀ name module, ix.aliases.resolve? name module = jx.aliases.resolve? name module
  isPublic : ∀ name qname place, ix.isPublic name qname place = jx.isPublic name qname place

/-- Two indexes with the same entries under the same keys and the same meanings of the same names,
whatever the order of all these, answer alike. -/
theorem PackageIndex.answersAlike_of_mem {ix jx : PackageIndex}
    (hentries : ∀ key e, e ∈ ix.reexports.under key ↔ e ∈ jx.reexports.under key)
    (hmeanings : ∀ name qname,
      qname ∈ ix.aliases.candidates name ↔ qname ∈ jx.aliases.candidates name) :
    ix.AnswersAlike jx := by
  obtain ⟨hquery, hsize⟩ := Reexports.query_size_eq_of_mem hentries
  have hcandidates : ∀ name, ix.aliases.candidates name = jx.aliases.candidates name := fun name =>
    congrArg Ascending.toList (Ascending.ext_mem (hmeanings name))
  refine ⟨hquery, hsize, ?_, fun qname => ?_, fun name module => ?_, fun name qname place => ?_⟩
  · rw [Reexports.isEmpty, Reexports.isEmpty, Bool.eq_iff_iff, List.isEmpty_iff_length_eq_zero,
      List.isEmpty_iff_length_eq_zero]
    exact iff_of_eq (congrArg (· = 0) hsize)
  · rw [reexportedBy, reexportedBy, hquery]
  · rw [Aliases.resolve?, Aliases.resolve?, hcandidates]
  · cases place with
    | «class» isPublic => rfl
    | module fullname =>
      rw [PackageIndex.isPublic, PackageIndex.isPublic, offersPublicly, offersPublicly, hquery]

/-- **Indexing is confluent.**  If two indexes were collected from the same portions, then whatever
the order in which these were added, however they were spread over indexes that were merged later,
and in whatever order the keys and names of these were gone through, both answer every question
alike.  What
the one holds are the contributions of the portions of the other, and nothing else. -/
theorem collections_answer_alike (c d : Collection) (h : c.portions.Perm d.portions)
    (ix jx : PackageIndex) (hc : c.Gives ix) (hd : d.Gives jx) :
    ix.AnswersAlike jx
      ∧ (∀ key e, e ∈ ix.reexports.under key ↔ ∃ p ∈ d.portions, p.Records key e)
      ∧ ∀ name qname, qname ∈ ix.aliases.candidates name
        ↔ ∃ p ∈ d.portions, p.Binds name qname := by
  have hentries : ∀ key e, e ∈ ix.reexports.under key ↔ ∃ p ∈ d.portions, p.Records key e := by
    intro key e
    simp only [hc.mem_under, h.mem_iff]
  have hmeanings : ∀ name qname, qname ∈ ix.aliases.candidates name
      ↔ ∃ p ∈ d.portions, p.Binds name qname := by
    intro name qname
    simp only [hc.mem_candidates, h.mem_iff]
  refine ⟨PackageIndex.answersAlike_of_mem (fun key e => ?_) fun name qname => ?_, hentries,
    hmeanings⟩
  · rw [hentries, hd.mem_under]
  · rw [hmeanings, hd.mem_candidates]

namespace Sample

/-- A package entry that imports a class under a name of its own. -/
def offering (moduleId fullname : String) (asName : String) : FileScan where
  moduleId := moduleId
  fullname := fullname
  isAggregator := true
  imports := [⟨.symbol, "pkg.impl.C", "impl", "C", some asName, 1⟩]
  classes := []

/-- The file with the class. -/
def defining : FileScan := ⟨"pkg/impl", "pkg.impl", false, [], [("C", "pkg.impl.C")]⟩

/-- The files one after another. -/
def inSequence : Collection :=
  ((Collection.empty.scan (offering "pkg/__init__" "pkg" "A")).scan
    (offering "pkg/all/__init__" "pkg.all" "B")).scan defining

/-- The files in two portions, of which the later one goes first. -/
def inPortions : Collection :=
  ((Collection.empty.scan defining).scan (offering "pkg/all/__init__" "pkg.all" "B")).merge
    (Collection.empty.scan (offering "pkg/__init__" "pkg" "A"))

/-- Both entries stand under one key, and were put there in a different order. -/
theorem portions_answer_alike :
    inSequence.portions.Perm inPortions.portions
      ∧ (inSequence.index.reexports.under "pkg.impl.C").map ReexportEntry.moduleId
        = ["pkg/__init__", "pkg/all/__init__"]
      ∧ (inPortions.index.reexports.under "pkg.impl.C").map ReexportEntry.moduleId
        = ["pkg/all/__init__", "pkg/__init__"]
      ∧ inPortions.index.reexportedBy "pkg.impl.C" = ["pkg/__init__", "pkg/all/__init__"]
      ∧ inPortions.index.aliases.resolve? "C" "pkg" = some "pkg.impl.C"
      ∧ inSequence.index.AnswersAlike inPortions.index := by
  have hperm : inSequence.portions.Perm inPortions.portions := List.reverse_perm _ |>.symm
  exact ⟨hperm, by decide +kernel, by decide +kernel, by decide +kernel, by decide +kernel,
    (collections_answer_alike _ _ hperm _ _ inSequence.gives_index inPortions.gives_index).1⟩

end Sample

/-! ## 4. The order of files -/

namespace SourceFile

variable {f g k : SourceFile}

theorem mayPrecede_trans (hfg : f.mayPrecede g = true) (hgk : g.mayPrecede k = true) :
    f.mayPrecede k = true := by
  simp only [mayPrecede, Bool.not_eq_true'] at *
  by_contra hkf
  rw [Bool.not_eq_false] at hkf
  -- A path before that of `f` comes before that of `g` as well, unless the two are the same.
  rcases Key.before_total (textKey f.path) (textKey g.path) with hbefore | hsame | hafter
  · rw [Key.before_trans hkf hbefore] at hgk
    cases hgk
  · rw [← hsame, hkf] at hgk
    cases hgk
  · rw [hafter] at hfg
    cases hfg

theorem mayPrecede_total : (f.mayPrecede g || g.mayPrecede f) = true := by
  simp only [mayPrecede, Bool.or_eq_true, Bool.not_eq_true']
  cases hgf : Key.before (textKey g.path) (textKey f.path) with
  | false => exact .inl rfl
  | true => exact .inr (Key.not_before_of_before hgf)

theorem path_eq_of_mayPrecede (hfg : f.mayPrecede g = true) (hgf : g.mayPrecede f = true) :
    f.path = g.path := by
  simp only [mayPrecede, Bool.not_eq_true'] at hfg hgf
  exact textKey_injective (Key.eq_of_not_before hgf hfg)

end SourceFile

theorem pairwise_selectFiles (package : String) (files : List SourceFile) :
    (selectFiles package files).Pairwise fun f g => f.mayPrecede g = true := by
  rw [selectFiles]
  exact @List.pairwise_mergeSort _ SourceFile.mayPrecede (fun f g k => SourceFile.mayPrecede_trans)
    (fun f g => SourceFile.mayPrecede_total) _

theorem mem_selectFiles {package : String} {files : List SourceFile} {f : SourceFile} :
    f ∈ selectFiles package files ↔ f ∈ files ∧ isInPackage package f.fullname = true := by
  rw [selectFiles, List.mem_mergeSort, List.mem_filter]

/-- Where a path tells the file, the selection does not depend on the order of the files. -/
theorem selectFiles_eq_of_perm {files files' : List SourceFile} (h : files.Perm files')
    (hpaths : ∀ f ∈ files, ∀ g ∈ files, f.path = g.path → f = g) (package : String) :
    selectFiles package files = selectFiles package files' := by
  have hperm : (selectFiles package files).Perm (selectFiles package files') :=
    (List.mergeSort_perm _ _).trans ((h.filter _).trans (List.mergeSort_perm _ _).symm)
  refine hperm.eq_of_pairwise ?_ (pairwise_selectFiles _ _) (pairwise_selectFiles _ _)
  intro f g hf hg hfg hgf
  have hf' := (mem_selectFiles.1 hf).1
  have hg' := h.mem_iff.2 (mem_selectFiles.1 hg).1
  exact hpaths f hf' g hg' (SourceFile.path_eq_of_mayPrecede hfg hgf)

/-- **The order of the files does not matter.**  For files with different paths and any options
there is one model, and one text of its document, that the analysis gives in whatever order the
files are supplied. -/
theorem analyze_same_in_any_order (files : List SourceFile) (o : Options)
    (hpaths : (files.map SourceFile.path).Nodup) :
    ∃ api, ∀ files', files.Perm files' → analyze files' o = .ok api
      ∧ (analyze files' o).map (fun a => a.toDocument.emit) = .ok api.toDocument.emit := by
  obtain ⟨api, hapi⟩ : ∃ api, analyze files o = .ok api := ⟨_, analyze_eq files o⟩
  refine ⟨api, fun files' h => ?_⟩
  have hselected := selectFiles_eq_of_perm h
    (fun f hf g hg hpath => List.inj_on_of_nodup_map hpaths hf hg hpath) o.package
  have hanalyzed : analyze files' o = .ok api := by
    rw [← hapi, analyze_eq files o, analyze_eq files' o, hselected]
  exact ⟨hanalyzed, by rw [hanalyzed]; rfl⟩

namespace Sample

/-- A module with one class, in a file of its own kind. -/
def classFile (path docstring : String) : SourceFile :=
  ⟨path, "m", none, [.classDef { classHead with docstring := some docstring } []]⟩

/-- Both files have the same ids, and whichever is supplied first, the row of one of them stays. -/
theorem same_row_in_any_order :
    ([classFile "m.py" "Here.", classFile "m.pyi" "There."].map SourceFile.path).Nodup
      ∧ ∃ api, analyze [classFile "m.py" "Here.", classFile "m.pyi" "There."] {} = .ok api
        ∧ analyze [classFile "m.pyi" "There.", classFile "m.py" "Here."] {} = .ok api
        ∧ api.classes.toList.map (fun c => c.docstring.fullDocstring) = ["Here."] := by
  have hpaths : ([classFile "m.py" "Here.", classFile "m.pyi" "There."].map
      SourceFile.path).Nodup := by decide
  obtain ⟨api, hapi⟩ := analyze_same_in_any_order _ {} hpaths
  refine ⟨hpaths, api, (hapi _ (.refl _)).1, (hapi _ (.swap _ _ [])).1, ?_⟩
  have hmodel := (hapi _ (.refl _)).1.symm.trans (analyze_eq _ _)
  rw [if_neg (by decide), selectFiles, List.mergeSort_of_pairwise (by decide +kernel)] at hmodel
  rw [Except.ok.inj hmodel]
  decide +kernel

end Sample

end ApiSurface
