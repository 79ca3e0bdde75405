import ApiSurface.Proofs.PackageGraph
import ApiSurface.Proofs.Publicity
import ApiSurface.Proofs.ReexportQuery
/-!
# Marks and reexports agree

A class or function directly in a module can be public for two reasons: its name and the module's
name are not internal, or a package entry imports it and exposes it under a name that is not.  Which
package entries import it is written down in the row as well, by another query and at another time
of the walk.

Both go back to the imports of the files (`Reexporting`), and so they agree.  Where the names alone
do not make a row public, one of the entries that it names is the reason why it is.  The row may
meanwhile have passed through a merge and a public view, which leave it as it was up to the members
that it lists (`Contributes`).
-/

namespace ApiSurface

/-! ## 1. Imports of package entries -/

/-- That a package entry among the files has an import that denotes a name. -/
structure Reexporting (files : List SourceFile) (qname : String) (g : SourceFile)
    (r : ImportRecord) : Prop where
  mem : g ∈ files
  isEntry : g.isAggregator = true
  imports : r ∈ g.imports
  denotes : (r.entry (Id.ofPath g.path)).Denotes qname

/-- The name under which an import exposes a declaration.  An import of just this declaration may
give it another. -/
def ImportRecord.exposedName (r : ImportRecord) (name qname : String) : String :=
  if r.kind = .symbol ∧ r.origin = qname then r.asName.getD name else name

namespace Collection

theorem index_foldl_scan (scans : List FileScan) (c : Collection) :
    (scans.foldl scan c).index = scans.foldl PackageIndex.addScan c.index := by
  induction scans generalizing c with
  | nil => rfl
  | cons s scans ih => exact ih (c.scan s)

theorem mem_entries_foldl_scan {scans : List FileScan} {c : Collection} {e : ReexportEntry} :
    e ∈ (scans.foldl scan c).entries ↔ e ∈ c.entries
      ∨ ∃ s ∈ scans, s.isAggregator = true ∧ ∃ r ∈ s.imports, r.entry s.moduleId = e := by
  induction scans generalizing c with
  | nil => simp
  | cons s scans ih =>
    have hscan : e ∈ (c.scan s).entries ↔ e ∈ c.entries
        ∨ s.isAggregator = true ∧ ∃ r ∈ s.imports, r.entry s.moduleId = e := by
      rw [entries, List.mem_append]
      refine or_congr_right ?_
      cases s.isAggregator <;> simp
    simp only [List.foldl_cons, ih, hscan, List.mem_cons, exists_eq_or_imp, or_assoc]

end Collection

section Index

variable {files : List SourceFile} {name qname : String}

/-- A query in the index of a package finds the denoting imports of its entries. -/
theorem mem_query_build {e : ReexportEntry} :
    e ∈ (PackageIndex.build (files.map SourceFile.scan)).reexports.query qname
      ↔ ∃ g r, Reexporting files qname g r ∧ r.entry (Id.ofPath g.path) = e := by
  have hindex : ((files.map SourceFile.scan).foldl Collection.scan .empty).index
      = PackageIndex.build (files.map SourceFile.scan) := Collection.index_foldl_scan _ .empty
  rw [← hindex, (Collection.stores _).mem_query, Collection.mem_entries_foldl_scan]
  constructor
  · rintro ⟨he | ⟨s, hs, hentry, r, hr, rfl⟩, hdenotes⟩
    · cases he
    · obtain ⟨g, hg, rfl⟩ := List.mem_map.1 hs
      exact ⟨g, r, ⟨hg, hentry, hr, hdenotes⟩, rfl⟩
  · rintro ⟨g, r, h, rfl⟩
    refine ⟨.inr ⟨g.scan, List.mem_map_of_mem h.mem, h.isEntry, r, h.imports, rfl⟩, h.denotes⟩

theorem mem_reexportedBy_build {id : String} :
    id ∈ (PackageIndex.build (files.map SourceFile.scan)).reexportedBy qname
      ↔ ∃ g r, Reexporting files qname g r ∧ Id.ofPath g.path = id := by
  rw [PackageIndex.reexportedBy, NameSet.mem_ofList, List.mem_map]
  constructor
  · rintro ⟨e, he, rfl⟩
    obtain ⟨g, r, h, rfl⟩ := mem_query_build.1 he
    exact ⟨g, r, h, rfl⟩
  · rintro ⟨g, r, h, rfl⟩
    exact ⟨r.entry (Id.ofPath g.path), mem_query_build.2 ⟨g, r, h, rfl⟩, rfl⟩

theorem offersPublicly_build :
    (PackageIndex.build (files.map SourceFile.scan)).offersPublicly name qname = true
      ↔ ∃ g r, Reexporting files qname g r ∧ isInternalName (r.exposedName name qname) = false := by
  have hexposed : ∀ (r : ImportRecord) (id : String),
      (if (r.entry id).isExact qname then (r.entry id).asName.getD name else name)
        = r.exposedName name qname := by
    intro r id
    simp [ImportRecord.exposedName, ReexportEntry.isExact, ImportRecord.entry]
  simp only [PackageIndex.offersPublicly, List.any_eq_true, Bool.not_eq_true']
  constructor
  · rintro ⟨e, he, hname⟩
    obtain ⟨g, r, h, rfl⟩ := mem_query_build.1 he
    exact ⟨g, r, h, hexposed r _ ▸ hname⟩
  · rintro ⟨g, r, h, hname⟩
    exact ⟨_, mem_query_build.2 ⟨g, r, h, rfl⟩, (hexposed r _).symm ▸ hname⟩

end Index

/-! ## 2. Rows of a file -/

namespace Entity

/-- The package entries that the row of a class or function names. -/
def reexportedBy? : Entity → Option (List String)
  | .class r => some r.reexportedBy
  | .function r => some r.reexportedBy
  | .module _ | .enum _ | .parameter _ | .attribute _ | .result _ | .enumInstance _ => none

end Entity

theorem ModuleContext.finishedClass_reexportedBy (ctx : ModuleContext) (scope : Scope)
    (head : ClassHead) (members : List Member) :
    (ctx.finishedClass scope head members).reexportedBy
      = ctx.reexportedBy scope.place.isModule head.fullname :=
  congrArg ClassRow.reexportedBy
    (ClassFrame.foldl_absorb_withoutMembers ctx (.start ctx scope head) members)

/-- The package entries in a member's row, from the scope in which the member stands. -/
theorem Member.reexportedBy_of_row {ctx : ModuleContext} {m : Member} {e : Entity}
    {qname : String} {ids : List String} (h : m.row? ctx = some e)
    (hname : e.qualifiedName? = some qname) (hids : e.reexportedBy? = some ids) :
    ∃ scope, m.scope? = some scope ∧ ids = ctx.reexportedBy scope.place.isModule qname := by
  cases m with
  | «class» scope head members =>
    cases h
    cases hname
    cases hids
    refine ⟨scope, rfl, ?_⟩
    rw [(ctx.finishedClass_mark scope head members).2]
    exact ctx.finishedClass_reexportedBy scope head members
  | enum => cases h; cases hids
  | function scope head body =>
    cases h
    cases hname
    cases hids
    exact ⟨scope, rfl, rfl⟩
  | assignment => cases h

namespace SourceFile

variable {f : SourceFile} {ctx : ModuleContext} {e : Entity} {mark : Mark} {qname : String}
  {ids : List String}

/-- A row directly in the module names all entries that import it, and a row in a class none. -/
theorem reexportedBy_cases (he : (f.model ctx).Holds e) (hmark : e.mark? = some mark)
    (hname : e.qualifiedName? = some qname) (hids : e.reexportedBy? = some ids) :
    ids = ctx.index.reexportedBy qname ∨ ids = [] ∧ ¬ mark.StandsIn (Id.ofPath f.path) := by
  obtain ⟨m, hm, hrow⟩ := exists_row he hname
  obtain ⟨scope, hscope, rfl⟩ := Member.reexportedBy_of_row hrow hname hids
  rcases Member.mem_or_inClass _ hm with hdirect | hnested
  · obtain rfl := (f.claims_members ctx).direct m hdirect scope hscope
    exact .inl rfl
  · have hout := not_standsIn_of_inClass hnested hrow hmark
    obtain ⟨s, head, members, hc, hin⟩ := hnested
    obtain rfl := (f.claims_members ctx).nested s head members hc m hin scope hscope
    exact .inr ⟨rfl, hout⟩

end SourceFile

/-! ## 3. Rows of a package -/

/-- A row without what members add to it. -/
def Entity.withoutMembers : Entity → Entity
  | .class r => .class r.withoutMembers
  | e => e

namespace Entity

@[simp] theorem mark?_withoutMembers (e : Entity) : e.withoutMembers.mark? = e.mark? := by
  cases e <;> rfl

@[simp] theorem qualifiedName?_withoutMembers (e : Entity) :
    e.withoutMembers.qualifiedName? = e.qualifiedName? := by
  cases e <;> rfl

@[simp] theorem reexportedBy?_withoutMembers (e : Entity) :
    e.withoutMembers.reexportedBy? = e.reexportedBy? := by
  cases e <;> rfl

/-- A row with package entries is no module, so shrinking it takes members away only. -/
theorem withoutMembers_shrink {a : Api} {e : Entity} {ids : List String}
    (h : (e.shrink a).reexportedBy? = some ids) :
    (e.shrink a).withoutMembers = e.withoutMembers := by
  cases e with
  | module => cases h
  | «class» | function | enum | parameter | «attribute» | result | enumInstance => rfl

end Entity

/-- That a row is one of a file's own model, up to the members that it lists. -/
def SourceFile.Contributes (f : SourceFile) (files : List SourceFile) (style : DocstringStyle)
    (e : Entity) : Prop :=
  ∃ part e₀, f.assemble (PackageIndex.build (files.map SourceFile.scan)) style = .ok part
    ∧ part.Holds e₀ ∧ e₀.withoutMembers = e.withoutMembers

/-- What the package entries that a row names have to do with the imports of the files and with the
row's mark. -/
structure Agreement (files : List SourceFile) (style : DocstringStyle) (e : Entity) (m : Mark)
    (qname : String) (ids : List String) : Prop where
  hasFile : ∃ f ∈ files, f.Contributes files style e
  /-- Every id is that of a package entry with a denoting import. -/
  sound : ∀ id ∈ ids, ∃ g r, Reexporting files qname g r ∧ Id.ofPath g.path = id
  /-- A row directly in its module has the ids of all of them. -/
  complete : ∀ f ∈ files, f.Contributes files style e → m.StandsIn (Id.ofPath f.path) →
    ∀ g r, Reexporting files qname g r → Id.ofPath g.path ∈ ids
  /-- If it is public in spite of its name or the module's, one of them exposes it publicly. -/
  exposes : ∀ f ∈ files, f.Contributes files style e → m.StandsIn (Id.ofPath f.path) →
    m.isPublic = true →
    (isInternalName m.name = true
      ∨ ∃ part ∈ Text.components f.fullname, isInternalName part = true) →
      ∃ g r, Reexporting files qname g r ∧ isInternalName (r.exposedName m.name qname) = false
        ∧ Id.ofPath g.path ∈ ids

section Package

variable {files : List SourceFile} {style : DocstringStyle} {f : SourceFile} {e : Entity} {m : Mark}
  {qname : String} {ids : List String}

namespace SourceFile.Contributes

/-- A contributed row has the names, the mark and the package entries of a row in the file's own
model. -/
theorem exists_row (h : f.Contributes files style e) :
    ∃ e₀, (f.model (f.contextIn files style)).Holds e₀ ∧ e₀.mark? = e.mark?
      ∧ e₀.qualifiedName? = e.qualifiedName? ∧ e₀.reexportedBy? = e.reexportedBy? := by
  obtain ⟨part, e₀, hpart, he₀, hsame⟩ := h
  rw [f.assemble_eq] at hpart
  cases hpart
  refine ⟨e₀, he₀, ?_, ?_, ?_⟩
  · rw [← e₀.mark?_withoutMembers, hsame, e.mark?_withoutMembers]
  · rw [← e₀.qualifiedName?_withoutMembers, hsame, e.qualifiedName?_withoutMembers]
  · rw [← e₀.reexportedBy?_withoutMembers, hsame, e.reexportedBy?_withoutMembers]

theorem reexportedBy_cases (h : f.Contributes files style e) (hmark : e.mark? = some m)
    (hname : e.qualifiedName? = some qname) (hids : e.reexportedBy? = some ids) :
    ids = (PackageIndex.build (files.map SourceFile.scan)).reexportedBy qname
      ∨ ids = [] ∧ ¬ m.StandsIn (Id.ofPath f.path) := by
  obtain ⟨e₀, he₀, hmark₀, hname₀, hids₀⟩ := h.exists_row
  have hcases := f.reexportedBy_cases he₀ (hmark₀.trans hmark) (hname₀.trans hname)
    (hids₀.trans hids)
  exact hcases

theorem isPublic_iff (h : f.Contributes files style e) (hmark : e.mark? = some m)
    (hname : e.qualifiedName? = some qname) (hin : m.StandsIn (Id.ofPath f.path)) :
    m.isPublic = true
      ↔ f.PublicInModule (PackageIndex.build (files.map SourceFile.scan)) m.name qname := by
  obtain ⟨e₀, he₀, hmark₀, hname₀, -⟩ := h.exists_row
  have hrule := f.isPublic_of_module he₀ (hmark₀.trans hmark) (hname₀.trans hname) hin
  exact hrule

end SourceFile.Contributes

theorem agreement_of_contributes (hf : f ∈ files) (h : f.Contributes files style e)
    (hmark : e.mark? = some m) (hname : e.qualifiedName? = some qname)
    (hids : e.reexportedBy? = some ids) : Agreement files style e m qname ids := by
  have hcomplete : ∀ g ∈ files, g.Contributes files style e → m.StandsIn (Id.ofPath g.path) →
      ∀ g' r, Reexporting files qname g' r → Id.ofPath g'.path ∈ ids := by
    intro g _ hg hin g' r hr
    rcases hg.reexportedBy_cases hmark hname hids with hall | ⟨-, hout⟩
    · rw [hall]
      exact mem_reexportedBy_build.2 ⟨g', r, hr, rfl⟩
    · exact absurd hin hout
  refine ⟨⟨f, hf, h⟩, ?_, hcomplete, ?_⟩
  · intro id hid
    rcases h.reexportedBy_cases hmark hname hids with hall | ⟨rfl, -⟩
    · rw [hall] at hid
      exact mem_reexportedBy_build.1 hid
    · cases hid
  · intro g hgmem hg hin hpublic hinternal
    -- Of the two reasons to be public, the names are not the one.
    rcases (hg.isPublic_iff hmark hname hin).1 hpublic with hoffered | ⟨hown, hparts⟩
    · obtain ⟨g', r, hr, hexposed⟩ := offersPublicly_build.1 hoffered
      exact ⟨g', r, hr, hexposed, hcomplete g hgmem hg hin g' r hr⟩
    · rcases hinternal with hinternal | ⟨part, hpart, hinternal⟩
      · exact absurd hinternal (Bool.eq_false_iff.1 hown)
      · exact absurd hinternal (Bool.eq_false_iff.1 (hparts part hpart))

theorem exists_contributes_of_modelOf {o : Options} (he : (modelOf files o).Holds e) :
    ∃ f ∈ files, f.Contributes files o.style e := by
  obtain ⟨part, hpart, hrow⟩ := holds_modelOf he
  obtain ⟨f, hf, rfl⟩ := List.mem_map.1 hpart
  exact ⟨f, hf, _, e, f.assemble_eq _ _, hrow, rfl⟩

/-- A class or function of the public view comes from a file as well. -/
theorem exists_contributes_of_publicView {o : Options} {view : Api}
    (hview : (modelOf files o).publicView? = some view) (he : view.Holds e)
    (hids : e.reexportedBy? = some ids) : ∃ f ∈ files, f.Contributes files o.style e := by
  obtain ⟨e₀, hoffered, rfl⟩ := (Api.holds_publicView hview).1 he
  obtain ⟨f, hf, part, e₁, hpart, hrow, hsame⟩ := exists_contributes_of_modelOf hoffered.holds
  refine ⟨f, hf, part, e₁, hpart, hrow, ?_⟩
  rw [hsame, Entity.withoutMembers_shrink hids]

end Package

/-- **Marks and reexports agree.**  For all files and options: the package entries that the row of a
class or function names are entries of the package with an import that denotes it.  If the row is
directly in a module, it names all of them; and if it is public although its own name or a part of
the module's is internal, one of those that it names exposes it under a name that is not. -/
theorem analyze_reexport_agreement (files : List SourceFile) (o : Options) :
    ∃ api, analyze files o = .ok api
      ∧ ∀ e m qname ids, api.Holds e → e.mark? = some m → e.qualifiedName? = some qname →
        e.reexportedBy? = some ids →
          Agreement (selectFiles o.package files) o.style e m qname ids := by
  obtain ⟨view, hview, hanalyze⟩ := analyze_eq_view files o
  refine ⟨_, hanalyze, ?_⟩
  intro e m qname ids he hmark hname hids
  obtain ⟨f, hf, hfrom⟩ : ∃ f ∈ selectFiles o.package files,
      f.Contributes (selectFiles o.package files) o.style e := by
    cases hpublic : o.publicOnly with
    | false =>
      rw [hpublic] at he
      exact exists_contributes_of_modelOf he
    | true =>
      rw [hpublic, if_pos rfl] at he
      exact exists_contributes_of_publicView hview he hids
  exact agreement_of_contributes hf hfrom hmark hname hids

namespace Sample

def hiddenHead : ClassHead := ⟨"_Hidden", "pkg._impl._Hidden", [], [], [], [], none, 1⟩

/-- An internal module with an internal class. -/
def innerFile : SourceFile := ⟨"pkg/_impl.py", "pkg._impl", none, [.classDef hiddenHead []]⟩

/-- The entry of the package, which imports the class relative to itself and under another name. -/
def entryFile : SourceFile where
  path := "pkg/__init__.py"
  fullname := "pkg"
  docstring := none
  body := [.importFrom ⟨"_impl", 1, [⟨"_Hidden", some "Shown"⟩]⟩]

def reexportingFiles : List SourceFile := [entryFile, innerFile]

theorem selectFiles_reexporting : selectFiles "" reexportingFiles = reexportingFiles :=
  List.mergeSort_of_pairwise (by decide +kernel)

/-- The class is public in spite of all its names, and the entry is the reason. -/
theorem hidden_class_exposed :
    ∃ api c, analyze reexportingFiles {} = .ok api ∧ api.Holds (.class c)
      ∧ c.name = "_Hidden" ∧ c.isPublic = true ∧ c.reexportedBy = ["pkg/__init__"]
      ∧ ∃ g r, Reexporting reexportingFiles c.qualifiedName g r
        ∧ isInternalName (r.exposedName c.name c.qualifiedName) = false
        ∧ Id.ofPath g.path ∈ c.reexportedBy := by
  obtain ⟨api, hapi, hagrees⟩ := analyze_reexport_agreement reexportingFiles {}
  have hmodel := hapi.symm.trans (analyze_eq reexportingFiles {})
  rw [if_neg (by decide), selectFiles_reexporting] at hmodel
  obtain rfl := Except.ok.inj hmodel
  rw [selectFiles_reexporting] at hagrees
  obtain ⟨c, hc, hrow, hid, hname, hpublic, hids⟩ :
      ∃ c ∈ (modelOf reexportingFiles {}).classes.toList,
        c ∈ (innerFile.model (innerFile.contextIn reexportingFiles .plaintext)).classes.toList
          ∧ c.id = Id.child "pkg/_impl" c.name ∧ c.name = "_Hidden" ∧ c.isPublic = true
          ∧ c.reexportedBy = ["pkg/__init__"] := by
    decide +kernel
  refine ⟨_, c, hapi, hc, hname, hpublic, hids, ?_⟩
  have hfrom : innerFile.Contributes reexportingFiles .plaintext (.class c) :=
    ⟨_, .class c, innerFile.assemble_eq _ _, hrow, rfl⟩
  refine (hagrees (.class c) _ _ _ hc rfl rfl rfl).exposes innerFile (by simp [reexportingFiles])
    hfrom hid hpublic (.inl ?_)
  exact (congrArg isInternalName hname).trans (by decide)

end Sample

end ApiSurface
